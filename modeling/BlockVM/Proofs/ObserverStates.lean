import Mathlib
import BlockVM.Trace.Tracer

namespace BlockVM

/-! What the observers hold after a list of events, said of the list itself. Each observer takes the events
one by one, so the lists grow at their end. -/

namespace Event

def opcode? : Event → Option Opcode
  | .instruction _ opcode _ _ => some opcode
  | _ => none

def offset? : Event → Option Nat
  | .instruction offset _ _ _ => some offset
  | _ => none

def callDepth? : Event → Option Nat
  | .call _ depth => some depth
  | _ => none

def blockDepth? : Event → Option Nat
  | .blockPush _ depth => some depth
  | _ => none

def isException : Event → Bool
  | .exception .. => true
  | _ => false

@[simp] theorem opcode?_recorded (event : Event) : event.recorded.opcode? = event.opcode? := by
  cases event <;> rfl

@[simp] theorem offset?_recorded (event : Event) : event.recorded.offset? = event.offset? := by
  cases event <;> rfl

@[simp] theorem callDepth?_recorded (event : Event) : event.recorded.callDepth? = event.callDepth? := by
  cases event <;> rfl

@[simp] theorem blockDepth?_recorded (event : Event) : event.recorded.blockDepth? = event.blockDepth? := by
  cases event <;> rfl

theorem countP_recorded {test : Event → Bool} (blind : ∀ event, test event.recorded = test event)
    (events : List Event) : (events.map recorded).countP test = events.countP test := by
  rw [List.countP_map]
  exact List.countP_congr fun event _ => by simp [blind]

end Event

namespace Recording

theorem foldl_observe_appends (earlier : Array Event) (events : List Event) :
    events.foldl observe { events := earlier } = { events := earlier ++ (events.map Event.recorded).toArray } := by
  induction events using List.reverseRecOn with
  | nil => simp
  | append_singleton events event ih =>
      rw [List.foldl_append, ih]
      simp [observe, isFull]

theorem foldl_observe_unlimited (events : List Event) :
    events.foldl observe {} = { events := (events.map Event.recorded).toArray } :=
  (foldl_observe_appends #[] events).trans (by simp)

theorem foldl_observe_limited (limit : Nat) (events : List Event) :
    events.foldl observe { limit := some limit } =
      { limit := some limit, events := ((events.map Event.recorded).take limit).toArray } := by
  induction events using List.reverseRecOn with
  | nil => simp
  | append_singleton events event ih =>
      rw [List.foldl_append, ih]
      simp only [List.foldl_cons, List.foldl_nil, observe, isFull, List.size_toArray, List.length_take, List.length_map,
        List.map_append, List.map_cons, List.map_nil]
      by_cases full : limit ≤ events.length
      · rw [List.take_append_of_le_length (by simpa using full), if_pos (by simp; omega)]
      · rw [if_neg (by simp; omega), List.take_of_length_le (by simp; omega), List.take_of_length_le (by simp; omega)]
        simp

end Recording

namespace Coverage

theorem mem_insert {offset other : Nat} {offsets : List Nat} :
    other ∈ insert offset offsets ↔ other = offset ∨ other ∈ offsets := by
  induction offsets with
  | nil => simp [insert]
  | cons first rest ih =>
      rw [insert]
      split
      · simp
      · split
        · rename_i same
          simp [same]
        · simp only [List.mem_cons, ih]
          tauto

theorem insert_ascending {offset : Nat} {offsets : List Nat} (ascending : offsets.Pairwise (· < ·)) :
    (insert offset offsets).Pairwise (· < ·) := by
  induction offsets with
  | nil => simp [insert]
  | cons first rest ih =>
      obtain ⟨above, ordered⟩ := List.pairwise_cons.mp ascending
      rw [insert]
      split
      · rename_i below
        refine List.pairwise_cons.mpr ⟨?_, ascending⟩
        intro other member
        rcases List.mem_cons.mp member with rfl | member
        · exact below
        · exact Nat.lt_trans below (above other member)
      · split
        · exact ascending
        · refine List.pairwise_cons.mpr ⟨?_, ih ordered⟩
          intro other member
          rcases mem_insert.mp member with rfl | member
          · omega
          · exact above other member

/-- The offsets are those of the instructions, each of them once. -/
structure Covers (events : List Event) (coverage : Coverage) : Prop where
  ascending : coverage.offsets.Pairwise (· < ·)
  mem_iff (offset : Nat) : offset ∈ coverage.offsets ↔ offset ∈ events.filterMap Event.offset?

theorem Covers.snoc {events : List Event} {coverage : Coverage} (covers : coverage.Covers events) (event : Event) :
    (coverage.observe event).Covers (events ++ [event]) := by
  cases event with
  | instruction offset opcode stackDepth frameDepth =>
      refine ⟨insert_ascending covers.ascending, fun other => ?_⟩
      rw [observe, mem_insert, covers.mem_iff]
      simp [Event.offset?, or_comm]
  | _ => exact ⟨covers.ascending, fun other => by simpa [Event.offset?, observe] using covers.mem_iff other⟩

theorem foldl_observe (events : List Event) : (events.foldl observe {}).Covers events := by
  induction events using List.reverseRecOn with
  | nil => exact ⟨.nil, fun _ => by simp⟩
  | append_singleton events event ih =>
      rw [List.foldl_append]
      exact ih.snoc event

theorem Covers.recorded {events : List Event} {coverage : Coverage} (covers : coverage.Covers events) :
    coverage.Covers (events.map Event.recorded) :=
  ⟨covers.ascending, fun offset => by simpa [List.filterMap_map] using covers.mem_iff offset⟩

end Coverage

namespace Profile

/-- How often an opcode is listed. -/
def tally (counts : List (Opcode × Nat)) (opcode : Opcode) : Nat :=
  (counts.lookup opcode).getD 0

theorem tally_nil (opcode : Opcode) : tally [] opcode = 0 :=
  rfl

theorem tally_cons_self (opcode : Opcode) (count : Nat) (rest : List (Opcode × Nat)) :
    tally ((opcode, count) :: rest) opcode = count := by
  simp [tally]

theorem tally_cons_of_ne {opcode first : Opcode} (apart : opcode ≠ first) (count : Nat) (rest : List (Opcode × Nat)) :
    tally ((first, count) :: rest) opcode = tally rest opcode := by
  have differs : (opcode == first) = false := by simpa using apart
  simp [tally, List.lookup_cons, differs]

theorem tally_increment (opcode other : Opcode) (counts : List (Opcode × Nat)) :
    tally (increment opcode counts) other = tally counts other + if other = opcode then 1 else 0 := by
  induction counts with
  | nil =>
      rw [increment, tally_nil]
      by_cases same : other = opcode
      · rw [same, tally_cons_self, if_pos rfl]
      · rw [tally_cons_of_ne same, if_neg same, tally_nil]
  | cons entry rest ih =>
      obtain ⟨first, count⟩ := entry
      rw [increment]
      by_cases found : first = opcode
      · rw [if_pos found, ← found]
        by_cases same : other = first
        · rw [same, tally_cons_self, tally_cons_self, if_pos rfl]
        · rw [tally_cons_of_ne same, tally_cons_of_ne same, if_neg same, Nat.add_zero]
      · rw [if_neg found]
        by_cases same : other = first
        · rw [same, tally_cons_self, tally_cons_self, if_neg found, Nat.add_zero]
        · rw [tally_cons_of_ne same, tally_cons_of_ne same, ih]

theorem mem_keys_increment {opcode other : Opcode} {counts : List (Opcode × Nat)} :
    other ∈ (increment opcode counts).map Prod.fst ↔ other = opcode ∨ other ∈ counts.map Prod.fst := by
  induction counts with
  | nil => simp [increment]
  | cons entry rest ih =>
      obtain ⟨first, count⟩ := entry
      simp only [increment]
      split
      · rename_i same
        simp [same]
      · simp only [List.map_cons, List.mem_cons, ih]
        tauto

theorem nodup_increment {opcode : Opcode} {counts : List (Opcode × Nat)}
    (distinct : (counts.map Prod.fst).Nodup) : ((increment opcode counts).map Prod.fst).Nodup := by
  induction counts with
  | nil => simp [increment]
  | cons entry rest ih =>
      obtain ⟨first, count⟩ := entry
      obtain ⟨absent, below⟩ := List.nodup_cons.mp distinct
      simp only [increment]
      split
      · exact distinct
      · rename_i apart
        refine List.nodup_cons.mpr ⟨fun member => ?_, ih below⟩
        rcases mem_keys_increment.mp member with same | member
        · exact apart same
        · exact absent member

theorem pos_increment {opcode : Opcode} {counts : List (Opcode × Nat)} (positive : ∀ entry ∈ counts, 0 < entry.2) :
    ∀ entry ∈ increment opcode counts, 0 < entry.2 := by
  induction counts with
  | nil => simp [increment]
  | cons entry rest ih =>
      obtain ⟨first, count⟩ := entry
      obtain ⟨head, tail⟩ := List.forall_mem_cons.mp positive
      simp only [increment]
      split
      · exact List.forall_mem_cons.mpr ⟨Nat.succ_pos count, tail⟩
      · exact List.forall_mem_cons.mpr ⟨head, ih tail⟩

theorem sum_increment (opcode : Opcode) (counts : List (Opcode × Nat)) :
    ((increment opcode counts).map Prod.snd).sum = (counts.map Prod.snd).sum + 1 := by
  induction counts with
  | nil => rfl
  | cons entry rest ih =>
      obtain ⟨first, count⟩ := entry
      simp only [increment]
      split
      · simp only [List.map_cons, List.sum_cons]
        omega
      · simp only [List.map_cons, List.sum_cons, ih]
        omega

theorem mem_iff_tally {counts : List (Opcode × Nat)} (distinct : (counts.map Prod.fst).Nodup)
    (positive : ∀ entry ∈ counts, 0 < entry.2) (opcode : Opcode) (count : Nat) :
    (opcode, count) ∈ counts ↔ count = tally counts opcode ∧ 0 < count := by
  induction counts with
  | nil =>
      rw [tally_nil]
      simp only [List.not_mem_nil, false_iff]
      omega
  | cons entry rest ih =>
      obtain ⟨first, number⟩ := entry
      obtain ⟨absent, below⟩ := List.nodup_cons.mp distinct
      obtain ⟨head, tail⟩ := List.forall_mem_cons.mp positive
      by_cases same : opcode = first
      · subst same
        have elsewhere : (opcode, count) ∉ rest := fun member => absent (List.mem_map.mpr ⟨_, member, rfl⟩)
        rw [tally_cons_self]
        constructor
        · intro member
          rcases List.mem_cons.mp member with equal | member
          · cases equal
            exact ⟨rfl, head⟩
          · exact absurd member elsewhere
        · rintro ⟨rfl, _⟩
          exact List.mem_cons_self
      · rw [tally_cons_of_ne same, ← ih below tail]
        simp [same]

/-- The counters agree with the events. -/
structure Counted (events : List Event) (profile : Profile) : Prop where
  distinct : (profile.counts.map Prod.fst).Nodup
  positive : ∀ entry ∈ profile.counts, 0 < entry.2
  tally (opcode : Opcode) : tally profile.counts opcode = (events.filterMap Event.opcode?).count opcode
  sum : profile.instructions = (profile.counts.map Prod.snd).sum
  instructions : profile.instructions = (events.filterMap Event.opcode?).length
  calls : profile.calls = (events.filterMap Event.callDepth?).length
  exceptions : profile.exceptions = events.countP Event.isException
  maxDepth : profile.maxDepth = (events.filterMap Event.callDepth?).foldl max 0
  maxBlockDepth : profile.maxBlockDepth = (events.filterMap Event.blockDepth?).foldl max 0

theorem Counted.snoc {events : List Event} {profile : Profile} (counted : profile.Counted events) (event : Event) :
    (profile.observe event).Counted (events ++ [event]) := by
  obtain ⟨distinct, positive, tally, sum, instructions, calls, exceptions, maxDepth, maxBlockDepth⟩ := counted
  have tallied (other : Opcode) : Profile.tally (profile.observe event).counts other =
      (events.filterMap Event.opcode?).count other + ([event].filterMap Event.opcode?).count other := by
    cases event with
    | instruction offset opcode stackDepth frameDepth =>
        have last : [Event.instruction offset opcode stackDepth frameDepth].filterMap Event.opcode? = [opcode] := rfl
        rw [observe, tally_increment, tally, last, List.count_singleton]
        by_cases same : other = opcode
        · simp [same]
        · simp [same, Ne.symm same]
    | _ => exact tally other
  have listed : ((profile.observe event).counts.map Prod.fst).Nodup ∧
      (∀ entry ∈ (profile.observe event).counts, 0 < entry.2) ∧
      (profile.observe event).instructions = ((profile.observe event).counts.map Prod.snd).sum := by
    cases event with
    | instruction offset opcode stackDepth frameDepth =>
        exact ⟨nodup_increment distinct, pos_increment positive,
          (congrArg (· + 1) sum).trans (sum_increment opcode profile.counts).symm⟩
    | _ => exact ⟨distinct, positive, sum⟩
  refine ⟨listed.1, listed.2.1, ?_, listed.2.2, ?_, ?_, ?_, ?_, ?_⟩ <;>
    simp only [List.filterMap_append, List.countP_append, List.length_append, List.foldl_append, List.count_append]
  · exact tallied
  · cases event with
    | instruction => exact congrArg (· + 1) instructions
    | _ => exact instructions
  · cases event with
    | call => exact congrArg (· + 1) calls
    | _ => exact calls
  · cases event with
    | exception => exact congrArg (· + 1) exceptions
    | _ => exact exceptions
  · cases event with
    | call code depth => exact congrArg (max · depth) maxDepth
    | _ => exact maxDepth
  · cases event with
    | blockPush kind depth => exact congrArg (max · depth) maxBlockDepth
    | _ => exact maxBlockDepth

theorem counted (events : List Event) : (events.foldl observe {}).Counted events := by
  induction events using List.reverseRecOn with
  | nil => exact ⟨.nil, nofun, fun _ => rfl, rfl, rfl, rfl, rfl, rfl, rfl⟩
  | append_singleton events event ih =>
      rw [List.foldl_append]
      exact ih.snoc event

theorem foldl_max_eq (depths : List Nat) : depths.foldl max 0 = depths.max?.getD 0 := by
  cases depths with
  | nil => rfl
  | cons depth depths => rw [List.foldl_cons, Nat.zero_max, List.max?_cons', Option.getD_some]

theorem precedes_iff {a b : Opcode × Nat} : precedes a b = true ↔ b.2 < a.2 ∨ a.2 = b.2 ∧ a.1.toNat ≤ b.1.toNat := by
  simp [precedes]

theorem precedes_trans (a b c : Opcode × Nat) (first : precedes a b = true) (second : precedes b c = true) :
    precedes a c = true := by
  rw [precedes_iff] at first second ⊢
  omega

theorem precedes_total (a b : Opcode × Nat) : (precedes a b || precedes b a) = true := by
  rw [Bool.or_eq_true, precedes_iff, precedes_iff]
  omega

theorem toNat_injective {a b : Opcode} (same : a.toNat = b.toNat) : a = b := by
  have found := Opcode.ofNat?_toNat a
  rw [same, Opcode.ofNat?_toNat] at found
  exact (Option.some.inj found).symm

/-- What a profile reports of a list of events. -/
structure Reports (events : List Event) (profile : Profile) : Prop where
  /-- Each opcode is listed with its multiplicity. -/
  counts (opcode : Opcode) (count : Nat) :
    (opcode, count) ∈ profile.ranking ↔ count = (events.filterMap Event.opcode?).count opcode ∧ 0 < count
  /-- More frequent opcodes come first; of equally frequent ones the one with the smaller number. -/
  ranked : profile.ranking.Pairwise fun a b => b.2 < a.2 ∨ a.2 = b.2 ∧ a.1.toNat < b.1.toNat
  total : profile.instructions = (profile.ranking.map Prod.snd).sum
  instructions : profile.instructions = (events.filterMap Event.opcode?).length
  calls : profile.calls = (events.filterMap Event.callDepth?).length
  maxDepth : profile.maxDepth = (events.filterMap Event.callDepth?).max?.getD 0
  exceptions : profile.exceptions = events.countP Event.isException
  maxBlockDepth : profile.maxBlockDepth = (events.filterMap Event.blockDepth?).max?.getD 0

theorem Counted.ranked {events : List Event} {profile : Profile} (counted : profile.Counted events) :
    profile.ranking.Pairwise fun a b => b.2 < a.2 ∨ a.2 = b.2 ∧ a.1.toNat < b.1.toNat := by
  have permuted : profile.ranking.Perm profile.counts := List.mergeSort_perm _ _
  have sorted : profile.ranking.Pairwise fun a b => precedes a b = true :=
    List.pairwise_mergeSort precedes_trans precedes_total profile.counts
  have apart : profile.ranking.Pairwise fun a b => a.1 ≠ b.1 :=
    List.pairwise_map.mp ((permuted.map Prod.fst).nodup_iff.mpr counted.distinct)
  refine (sorted.and apart).imp ?_
  rintro a b ⟨before, different⟩
  rcases precedes_iff.mp before with more | ⟨equal, least⟩
  · exact .inl more
  · exact .inr ⟨equal, Nat.lt_of_le_of_ne least fun same => different (toNat_injective same)⟩

theorem Counted.reports {events : List Event} {profile : Profile} (counted : profile.Counted events) :
    profile.Reports events := by
  have permuted : profile.ranking.Perm profile.counts := List.mergeSort_perm _ _
  refine ⟨?_, counted.ranked, ?_, counted.instructions, counted.calls, ?_, counted.exceptions, ?_⟩
  · intro opcode count
    rw [permuted.mem_iff, mem_iff_tally counted.distinct counted.positive, counted.tally]
  · rw [counted.sum, (permuted.map Prod.snd).sum_nat]
  · rw [counted.maxDepth, foldl_max_eq]
  · rw [counted.maxBlockDepth, foldl_max_eq]

theorem Reports.recorded {events : List Event} {profile : Profile} (reports : profile.Reports events) :
    profile.Reports (events.map Event.recorded) where
  counts opcode count := by simpa [List.filterMap_map] using reports.counts opcode count
  ranked := reports.ranked
  total := reports.total
  instructions := by simpa [List.filterMap_map] using reports.instructions
  calls := by simpa [List.filterMap_map] using reports.calls
  maxDepth := by simpa [List.filterMap_map] using reports.maxDepth
  exceptions := by rw [reports.exceptions, Event.countP_recorded fun event => by cases event <;> rfl]
  maxBlockDepth := by simpa [List.filterMap_map] using reports.maxBlockDepth

end Profile

end BlockVM
