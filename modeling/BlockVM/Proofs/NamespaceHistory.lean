import BlockVM.Proofs.Parameters

namespace BlockVM

/-! Namespaces and their past. Clients hold handles of namespaces; several handles may be of one namespace,
and a copy starts with the bindings of its original but is a namespace of its own. What a namespace holds is
told by the changes made to it through any of its handles. -/

namespace Namespace

inductive Change where
  | set (name : String) (value : Value)
  | remove (name : String)

namespace Change

def name : Change → String
  | .set name _ => name
  | .remove name => name

end Change

def change (space : Namespace) : Change → Namespace
  | .set name value => space.set name value
  | .remove name => space.remove name

/-- The name is bound, and `time` is that of the first change since its last removal that set it. -/
structure BoundSince (past : List Change) (name : String) (time : Nat) : Prop where
  made : ∃ value, past[time]? = some (.set name value)
  kept : ∀ later, time < later → past[later]? ≠ some (.remove name)
  first : ∀ earlier value, earlier < time → past[earlier]? = some (.set name value) →
    ∃ removal, earlier < removal ∧ removal < time ∧ past[removal]? = some (.remove name)

/-- The last change of the name set it to `value`. -/
def Assigned (past : List Change) (name : String) (value : Value) : Prop :=
  ∃ time : Nat, past[time]? = some (.set name value) ∧
    ∀ later change, time < later → past[later]? = some change → change.name ≠ name

/-- The first of the names was bound before the second. -/
def Precedes (past : List Change) (name other : String) : Prop :=
  ∃ time later, BoundSince past name time ∧ BoundSince past other later ∧ time < later

/-- The namespace is what its past has made of it. -/
structure Reflects (space : Namespace) (past : List Change) : Prop where
  bound : ∀ name, name ∈ space.names ↔ ∃ time, BoundSince past name time
  ordered : space.names.Pairwise (Precedes past)
  values : ∀ name value, space.get? name = some value ↔ Assigned past name value

section

variable {past : List Change} {last : Change} {name other : String} {time : Nat} {value : Value} {space : Namespace}

theorem BoundSince.lt_length (bound : BoundSince past name time) : time < past.length := by
  obtain ⟨value, found⟩ := bound.made
  exact (List.getElem?_eq_some_iff.mp found).1

theorem BoundSince.le (bound : BoundSince past name time) {later : Nat} (also : BoundSince past name later) :
    time ≤ later := by
  refine Nat.le_of_not_lt fun before => ?_
  obtain ⟨value, found⟩ := also.made
  obtain ⟨removal, after, _, removed⟩ := bound.first later value before found
  exact also.kept removal after removed

theorem BoundSince.unique (bound : BoundSince past name time) {later : Nat} (also : BoundSince past name later) :
    time = later :=
  Nat.le_antisymm (bound.le also) (also.le bound)

theorem not_precedes_self (name : String) : ¬ Precedes past name name := by
  rintro ⟨time, later, bound, also, before⟩
  exact Nat.ne_of_lt before (bound.unique also)

/-- A name that was set and not removed since is bound. -/
theorem exists_boundSince (made : ∃ value, past[time]? = some (.set name value))
    (kept : ∀ later, time < later → past[later]? ≠ some (.remove name)) : ∃ since, BoundSince past name since := by
  -- The first such change is the one sought: each earlier one is followed by a removal.
  induction time using Nat.strong_induction_on with
  | _ time ih =>
      by_cases first : ∀ earlier value, earlier < time → past[earlier]? = some (.set name value) →
          ∃ removal, earlier < removal ∧ removal < time ∧ past[removal]? = some (.remove name)
      · exact ⟨time, made, kept, first⟩
      · push Not at first
        obtain ⟨earlier, value, before, found, unremoved⟩ := first
        refine ih earlier before ⟨value, found⟩ fun later after removed => ?_
        rcases Nat.lt_trichotomy later time with between | rfl | beyond
        · exact unremoved later after between removed
        · obtain ⟨_, other⟩ := made
          rw [removed] at other
          cases other
        · exact kept later beyond removed

theorem getElem?_after_last (after : past.length < time) : (past ++ [last])[time]? = none :=
  List.getElem?_eq_none (by simpa using Nat.succ_le_of_lt after)

theorem getElem?_append_last {change : Change} :
    (past ++ [last])[time]? = some change ↔ past[time]? = some change ∨ (time = past.length ∧ last = change) := by
  rcases Nat.lt_trichotomy time past.length with inside | rfl | outside
  · simp [List.getElem?_append_left inside, Nat.ne_of_lt inside]
  · simp
  · simp [getElem?_after_last outside, outside.le, Nat.ne_of_gt outside]

theorem BoundSince.append (bound : BoundSince past name time) (spared : last ≠ .remove name) :
    BoundSince (past ++ [last]) name time where
  made := by
    obtain ⟨value, found⟩ := bound.made
    exact ⟨value, getElem?_append_last.mpr (.inl found)⟩
  kept later after removed := by
    rcases getElem?_append_last.mp removed with removed | ⟨_, same⟩
    · exact bound.kept later after removed
    · exact spared same
  first earlier value before found := by
    rcases getElem?_append_last.mp found with found | ⟨rfl, _⟩
    · obtain ⟨removal, after, inside, removed⟩ := bound.first earlier value before found
      exact ⟨removal, after, inside, getElem?_append_last.mpr (.inl removed)⟩
    · exact absurd before (Nat.not_lt.mpr bound.lt_length.le)

theorem BoundSince.of_append (bound : BoundSince (past ++ [last]) name time) :
    (BoundSince past name time ∧ last ≠ .remove name) ∨ ∃ value, last = .set name value := by
  obtain ⟨value, found⟩ := bound.made
  rcases getElem?_append_last.mp found with made | ⟨_, same⟩
  · have inside : time < past.length := (List.getElem?_eq_some_iff.mp made).1
    refine .inl ⟨⟨⟨value, made⟩, fun later after removed => ?_, fun earlier value before found => ?_⟩, fun same => ?_⟩
    · exact bound.kept later after (getElem?_append_last.mpr (.inl removed))
    · obtain ⟨removal, after, within, removed⟩ :=
        bound.first earlier value before (getElem?_append_last.mpr (.inl found))
      exact ⟨removal, after, within, by rwa [List.getElem?_append_left (within.trans inside)] at removed⟩
    · exact bound.kept past.length inside (getElem?_append_last.mpr (.inr ⟨rfl, same⟩))
  · exact .inr ⟨value, same⟩

/-- A name that was not bound is bound from now on. -/
theorem boundSince_new (unbound : ¬ ∃ since, BoundSince past name since) :
    BoundSince (past ++ [.set name value]) name past.length where
  made := ⟨value, getElem?_append_last.mpr (.inr ⟨rfl, rfl⟩)⟩
  kept later after removed := by
    rw [getElem?_after_last after] at removed
    cases removed
  first earlier value before found := by
    rw [List.getElem?_append_left before] at found
    by_contra unremoved
    push Not at unremoved
    refine unbound (exists_boundSince ⟨value, found⟩ fun later after removed => ?_)
    have inside : later < past.length := (List.getElem?_eq_some_iff.mp removed).1
    exact unremoved later after inside (getElem?_append_last.mpr (.inl removed))

theorem exists_boundSince_set_iff :
    (∃ since, BoundSince (past ++ [.set name value]) other since) ↔
      other = name ∨ ∃ since, BoundSince past other since := by
  constructor
  · rintro ⟨since, bound⟩
    rcases bound.of_append with ⟨before, _⟩ | ⟨_, same⟩
    · exact .inr ⟨since, before⟩
    · cases same
      exact .inl rfl
  · intro either
    by_cases bound : ∃ since, BoundSince past other since
    · obtain ⟨since, bound⟩ := bound
      exact ⟨since, bound.append (by simp)⟩
    · obtain rfl := either.resolve_right bound
      exact ⟨_, boundSince_new bound⟩

theorem exists_boundSince_remove_iff :
    (∃ since, BoundSince (past ++ [.remove name]) other since) ↔
      other ≠ name ∧ ∃ since, BoundSince past other since := by
  constructor
  · rintro ⟨since, bound⟩
    rcases bound.of_append with ⟨before, spared⟩ | ⟨_, same⟩
    · exact ⟨fun same => spared (by rw [same]), since, before⟩
    · cases same
  · rintro ⟨ne, since, bound⟩
    exact ⟨since, bound.append fun same => ne (Change.remove.inj same).symm⟩

theorem assigned_append_iff :
    Assigned (past ++ [last]) name value ↔
      last = .set name value ∨ (last.name ≠ name ∧ Assigned past name value) := by
  constructor
  · rintro ⟨time, found, final⟩
    rcases getElem?_append_last.mp found with found | ⟨_, same⟩
    · have inside : time < past.length := (List.getElem?_eq_some_iff.mp found).1
      refine .inr ⟨final past.length last inside (getElem?_append_last.mpr (.inr ⟨rfl, rfl⟩)), time, found, ?_⟩
      exact fun later change after listed => final later change after (getElem?_append_last.mpr (.inl listed))
    · exact .inl same
  · rintro (rfl | ⟨ne, time, found, final⟩)
    · refine ⟨past.length, getElem?_append_last.mpr (.inr ⟨rfl, rfl⟩), fun later change after listed => ?_⟩
      rw [getElem?_after_last after] at listed
      cases listed
    · refine ⟨time, getElem?_append_last.mpr (.inl found), fun later change after listed => ?_⟩
      rcases getElem?_append_last.mp listed with listed | ⟨_, rfl⟩
      · exact final later change after listed
      · exact ne

theorem get?_eq_none_iff : space.get? name = none ↔ name ∉ space.names := by
  rw [get?, List.lookup_eq_none_iff, names, List.mem_map]
  constructor
  · rintro absent ⟨entry, member, same⟩
    simpa [same] using absent entry member
  · intro absent entry member
    simpa using fun same => absent ⟨entry, member, same.symm⟩

theorem Reflects.nodup (reflects : space.Reflects past) : space.names.Nodup := by
  refine reflects.ordered.imp fun {name other} precedes => ?_
  rintro rfl
  exact not_precedes_self name precedes

theorem reflects_empty : empty.Reflects [] where
  bound name := by
    refine ⟨fun member => absurd member List.not_mem_nil, fun ⟨time, bound⟩ => ?_⟩
    exact absurd bound.lt_length (Nat.not_lt_zero time)
  ordered := .nil
  values name value := by simp [get?, empty, Assigned]

theorem Precedes.append (precedes : Precedes past name other) (spared : last ≠ .remove name)
    (otherSpared : last ≠ .remove other) : Precedes (past ++ [last]) name other := by
  obtain ⟨time, later, bound, otherBound, before⟩ := precedes
  exact ⟨time, later, bound.append spared, otherBound.append otherSpared, before⟩

theorem Reflects.set (reflects : space.Reflects past) (name : String) (value : Value) :
    (space.set name value).Reflects (past ++ [.set name value]) where
  bound other := by
    rw [exists_boundSince_set_iff, ← reflects.bound other, names_set]
    split
    · rename_i member
      exact ⟨.inr, fun either => either.elim (fun same => same ▸ member) id⟩
    · rw [List.mem_append, List.mem_singleton, or_comm]
  ordered := by
    have kept : space.names.Pairwise (Precedes (past ++ [.set name value])) :=
      reflects.ordered.imp fun precedes => precedes.append (by simp) (by simp)
    rw [names_set]
    split
    · exact kept
    · rename_i absent
      have unbound : ¬ ∃ since, BoundSince past name since := fun bound => absent ((reflects.bound name).mpr bound)
      refine List.pairwise_append.mpr ⟨kept, List.pairwise_singleton _ _, fun other member last same => ?_⟩
      obtain rfl := List.mem_singleton.mp same
      obtain ⟨time, bound⟩ := (reflects.bound other).mp member
      exact ⟨time, past.length, bound.append (by simp), boundSince_new unbound, bound.lt_length⟩
  values other held := by
    rw [assigned_append_iff, ← reflects.values other held]
    by_cases same : other = name
    · subst same
      have found : (space.set other value).get? other = some value := space.get?_set_self other value
      simp [found, Change.name]
    · have found : (space.set name value).get? other = space.get? other := get?_set_of_ne same space
      simp [found, Change.name, Ne.symm same]

theorem Reflects.remove (reflects : space.Reflects past) (name : String) :
    (space.remove name).Reflects (past ++ [.remove name]) where
  bound other := by
    rw [exists_boundSince_remove_iff, ← reflects.bound other, names_remove, reflects.nodup.mem_erase_iff]
  ordered := by
    have spared {other : String} (member : other ∈ space.names.erase name) : Change.remove name ≠ .remove other :=
      fun same => (reflects.nodup.mem_erase_iff.mp member).1 (Change.remove.inj same).symm
    rw [names_remove]
    refine (reflects.ordered.sublist List.erase_sublist).imp_of_mem fun first second precedes => ?_
    exact precedes.append (spared first) (spared second)
  values other held := by
    rw [assigned_append_iff, ← reflects.values other held]
    by_cases same : other = name
    · subst same
      have gone : (space.remove other).get? other = none := by
        rw [get?_eq_none_iff, names_remove, reflects.nodup.mem_erase_iff]
        exact fun member => member.1 rfl
      simp [gone, Change.name]
    · have found : (space.remove name).get? other = space.get? other := get?_remove_of_ne same space
      simp [found, Change.name, Ne.symm same]

theorem Reflects.change (reflects : space.Reflects past) (change : Change) :
    (space.change change).Reflects (past ++ [change]) := by
  cases change with
  | set name value => exact reflects.set name value
  | remove name => exact reflects.remove name

theorem assign_of_notMem {entries : List (String × Value)} (absent : name ∉ entries.map (·.1)) :
    assign name value entries = entries ++ [(name, value)] := by
  induction entries with
  | nil => rfl
  | cons entry rest ih =>
      obtain ⟨key, old⟩ := entry
      obtain ⟨ne, absent⟩ : name ≠ key ∧ name ∉ rest.map (·.1) := by simpa using absent
      simp [assign, Ne.symm ne, ih absent]

theorem ofList_eq {entries : List (String × Value)} (distinct : (entries.map (·.1)).Nodup) :
    ofList entries = ⟨entries⟩ := by
  induction entries using List.reverseRecOn with
  | nil => rfl
  | append_singleton entries entry ih =>
      rw [List.map_append, List.nodup_append] at distinct
      obtain ⟨before, _, apart⟩ := distinct
      have absent : entry.1 ∉ entries.map (·.1) := fun member => apart _ member _ (by simp) rfl
      have earlier := ih before
      unfold ofList at earlier ⊢
      rw [List.foldl_append, earlier]
      exact congrArg Namespace.mk (assign_of_notMem absent)

end

end Namespace

/-- What can be done with a handle. -/
inductive Use where
  /-- One more handle of the same namespace. -/
  | share
  /-- A new namespace with the same bindings. -/
  | copy
  | change (change : Namespace.Change)

/-- What a client does. Handles are counted in the order in which they were made. -/
inductive Action where
  | create
  | use (handle : Nat) (use : Use)

/-- A heap and the handles that a client holds. -/
structure Shelf where
  heap : Heap
  handles : List NamespaceRef

namespace Shelf

def add (shelf : Shelf) (space : Namespace) : Shelf :=
  let (ref, heap) := shelf.heap.newNamespace space
  { heap, handles := shelf.handles ++ [ref] }

def useRef (shelf : Shelf) (ref : NamespaceRef) : Use → Shelf
  | .share => { shelf with handles := shelf.handles ++ [ref] }
  | .copy => shelf.add (.ofList (shelf.heap.space ref).entries)
  | .change change => { shelf with heap := shelf.heap.updateSpace ref (·.change change) }

def perform (shelf : Shelf) : Action → Shelf
  | .create => shelf.add .empty
  | .use handle use =>
      match shelf.handles[handle]? with
      | some ref => shelf.useRef ref use
      | none => shelf

/-- The namespace that is seen through a handle. -/
def view? (shelf : Shelf) (handle : Nat) : Option Namespace :=
  shelf.handles[handle]?.map shelf.heap.space

end Shelf

/-- What was done so far. Namespaces are counted in the order in which they were made, and a copy has the
past of its original. -/
structure Ledger where
  /-- The namespace of each handle. -/
  owners : List Nat := []
  pasts : List (List Namespace.Change) := []

namespace Ledger

def add (ledger : Ledger) (past : List Namespace.Change) : Ledger :=
  { owners := ledger.owners ++ [ledger.pasts.length], pasts := ledger.pasts ++ [past] }

def useOwner (ledger : Ledger) (owner : Nat) : Use → Ledger
  | .share => { ledger with owners := ledger.owners ++ [owner] }
  | .copy => ledger.add (ledger.pasts.getD owner [])
  | .change change => { ledger with pasts := ledger.pasts.modify owner (· ++ [change]) }

def perform (ledger : Ledger) : Action → Ledger
  | .create => ledger.add []
  | .use handle use =>
      match ledger.owners[handle]? with
      | some owner => ledger.useOwner owner use
      | none => ledger

end Ledger

theorem Heap.space_updateSpace_self {heap : Heap} {ref : NamespaceRef} (change : Namespace → Namespace)
    (known : ref.index < heap.namespaces.size) : (heap.updateSpace ref change).space ref = change (heap.space ref) := by
  simp [space, updateSpace, known, Array.getElem_modify_self]

namespace Shelf

variable {base : Nat} {shelf : Shelf} {ledger : Ledger}

theorem useRef_spares {ref other : NamespaceRef} (shelf : Shelf) (use : Use)
    (known : other.index < shelf.heap.namespaces.size) (apart : ref ≠ other) :
    (shelf.useRef ref use).heap.space other = shelf.heap.space other := by
  have spares : shelf.heap.Spares (· = ref) (shelf.useRef ref use).heap := by
    cases use with
    | share => exact .of_namespaces rfl
    | copy => exact .newNamespace _ _
    | change change => exact .updateSpace _ _ rfl
  exact spares.kept other known apart.symm

/-- The shelf has come about as the ledger says, in a heap that had `base` namespaces before. -/
structure Follows (base : Nat) (shelf : Shelf) (ledger : Ledger) : Prop where
  handles : shelf.handles = ledger.owners.map fun owner => ⟨base + owner⟩
  size : shelf.heap.namespaces.size = base + ledger.pasts.length
  known : ∀ owner ∈ ledger.owners, owner < ledger.pasts.length
  reflects : ∀ {owner : Nat} {past : List Namespace.Change}, ledger.pasts[owner]? = some past →
    (shelf.heap.space ⟨base + owner⟩).Reflects past

theorem Follows.add (follows : Follows base shelf ledger) {space : Namespace} {past : List Namespace.Change}
    (reflects : space.Reflects past) : Follows base (shelf.add space) (ledger.add past) where
  handles := by simp [Shelf.add, Ledger.add, Heap.newNamespace, follows.handles, follows.size]
  size := by simp [Shelf.add, Ledger.add, Heap.newNamespace, follows.size, Nat.add_assoc]
  known owner member := by
    rcases List.mem_append.mp member with member | member
    · exact (follows.known owner member).trans (by simp [Ledger.add])
    · simp [List.mem_singleton.mp member, Ledger.add]
  reflects {owner listed} found := by
    rcases Nat.lt_or_ge owner ledger.pasts.length with inside | outside
    · have kept : (shelf.add space).heap.space ⟨base + owner⟩ = shelf.heap.space ⟨base + owner⟩ :=
        Heap.space_of_push rfl (by simpa [follows.size] using inside)
      rw [kept]
      exact follows.reflects (by simpa [Ledger.add, List.getElem?_append_left inside] using found)
    · have inside : owner < ledger.pasts.length + 1 := by
        simpa [Ledger.add] using (List.getElem?_eq_some_iff.mp found).1
      obtain rfl : owner = ledger.pasts.length := by omega
      obtain rfl : past = listed := by simpa [Ledger.add] using found
      have made : (shelf.add space).heap.space ⟨base + ledger.pasts.length⟩ = space := by
        simp [Shelf.add, Heap.newNamespace, Heap.space, ← follows.size]
      rw [made]
      exact reflects

theorem Follows.use (follows : Follows base shelf ledger) {owner : Nat} (known : owner < ledger.pasts.length)
    (use : Use) : Follows base (shelf.useRef ⟨base + owner⟩ use) (ledger.useOwner owner use) := by
  have own := follows.reflects (List.getElem?_eq_getElem known)
  cases use with
  | share =>
      refine ⟨by simp [useRef, Ledger.useOwner, follows.handles], follows.size, fun other member => ?_, follows.reflects⟩
      rcases List.mem_append.mp member with member | member
      · exact follows.known other member
      · rw [List.mem_singleton.mp member]
        exact known
  | copy =>
      have same : Namespace.ofList (shelf.heap.space ⟨base + owner⟩).entries = shelf.heap.space ⟨base + owner⟩ :=
        Namespace.ofList_eq own.nodup
      have past : ledger.pasts.getD owner [] = ledger.pasts[owner] := by simp [known]
      rw [useRef, Ledger.useOwner, same, past]
      exact follows.add own
  | change change =>
      refine ⟨follows.handles, ?_, ?_, fun {other past} found => ?_⟩
      · simp [useRef, Ledger.useOwner, follows.size]
      · simpa [Ledger.useOwner] using follows.known
      · by_cases same : owner = other
        · subst same
          obtain rfl : ledger.pasts[owner] ++ [change] = past := by
            simpa [Ledger.useOwner, List.getElem?_modify, known] using found
          have changed : (shelf.useRef ⟨base + owner⟩ (.change change)).heap.space ⟨base + owner⟩ =
              (shelf.heap.space ⟨base + owner⟩).change change :=
            Heap.space_updateSpace_self _ (by simpa [follows.size] using known)
          rw [changed]
          exact own.change change
        · have listed : ledger.pasts[other]? = some past := by
            simpa [Ledger.useOwner, List.getElem?_modify, same] using found
          have inside : other < ledger.pasts.length := (List.getElem?_eq_some_iff.mp listed).1
          rw [useRef_spares _ _ (by simpa [follows.size] using inside) (by simpa using same)]
          exact follows.reflects listed

theorem Follows.perform (follows : Follows base shelf ledger) (action : Action) :
    Follows base (shelf.perform action) (ledger.perform action) := by
  cases action with
  | create => exact follows.add Namespace.reflects_empty
  | use handle use =>
      cases found : ledger.owners[handle]? with
      | none =>
          have absent : shelf.handles[handle]? = none := by simp [follows.handles, found]
          simpa [Shelf.perform, Ledger.perform, absent, found] using follows
      | some owner =>
          have held : shelf.handles[handle]? = some ⟨base + owner⟩ := by simp [follows.handles, found]
          have known := follows.known owner (List.mem_of_getElem? found)
          simpa [Shelf.perform, Ledger.perform, held, found] using follows.use known use

theorem follows_foldl (heap : Heap) (actions : List Action) :
    Follows heap.namespaces.size (actions.foldl perform { heap, handles := [] })
      (actions.foldl Ledger.perform {}) := by
  induction actions using List.reverseRecOn with
  | nil => exact ⟨rfl, rfl, fun _ member => absurd member List.not_mem_nil, fun found => by cases found⟩
  | append_singleton actions action ih =>
      rw [List.foldl_append, List.foldl_append]
      exact ih.perform action

theorem Follows.view? (follows : Follows base shelf ledger) {handle owner : Nat}
    (held : ledger.owners[handle]? = some owner) : shelf.view? handle = some (shelf.heap.space ⟨base + owner⟩) := by
  simp [Shelf.view?, follows.handles, held]

/-- A client sees through a handle nothing of what it does to another namespace. -/
theorem Follows.isolated (follows : Follows base shelf ledger) {handle owner other otherOwner : Nat}
    (held : ledger.owners[handle]? = some owner) (otherHeld : ledger.owners[other]? = some otherOwner)
    (apart : otherOwner ≠ owner) (use : Use) : (shelf.perform (.use other use)).view? handle = shelf.view? handle := by
  have known := follows.known owner (List.mem_of_getElem? held)
  have ref : shelf.handles[other]? = some ⟨base + otherOwner⟩ := by simp [follows.handles, otherHeld]
  have next := follows.perform (.use other use)
  have kept : (ledger.perform (.use other use)).owners[handle]? = some owner := by
    have inside : handle < ledger.owners.length := (List.getElem?_eq_some_iff.mp held).1
    cases use <;>
      simp [Ledger.perform, Ledger.useOwner, Ledger.add, otherHeld, List.getElem?_append_left inside, held]
  rw [next.view? kept, follows.view? held]
  simp only [Shelf.perform, ref]
  rw [useRef_spares _ _ (by simpa [follows.size] using known) (by simpa using apart)]

end Shelf

/-- Whatever a client does through whatever handles, each handle shows what the past of its namespace says.
The names are those that are bound, each once and in the order in which they were bound; a name has the value
to which its last change set it. All handles of a namespace show the same, and what is done through a handle of
another one, be it a copy or the original, does not show. -/
theorem namespaces_reflect_past (heap : Heap) (actions : List Action) :
    let shelf := actions.foldl Shelf.perform { heap, handles := [] }
    let ledger := actions.foldl Ledger.perform {}
    shelf.handles.length = ledger.owners.length ∧
    ∀ handle owner, ledger.owners[handle]? = some owner → ∃ space past,
      shelf.view? handle = some space ∧ ledger.pasts[owner]? = some past ∧ space.Reflects past ∧
      space.names.Nodup ∧ space.size = space.names.length ∧
      ∀ other otherOwner, ledger.owners[other]? = some otherOwner →
        (otherOwner = owner → shelf.view? other = some space) ∧
        (otherOwner ≠ owner → ∀ use, (shelf.perform (.use other use)).view? handle = some space) := by
  intro shelf ledger
  have follows : shelf.Follows heap.namespaces.size ledger := Shelf.follows_foldl heap actions
  refine ⟨by simp [follows.handles], fun handle owner held => ?_⟩
  have known := follows.known owner (List.mem_of_getElem? held)
  have past := List.getElem?_eq_getElem known
  have reflects := follows.reflects past
  refine ⟨_, _, follows.view? held, past, reflects, reflects.nodup, (List.length_map _).symm, ?_⟩
  intro other otherOwner otherHeld
  refine ⟨?_, fun apart use => ?_⟩
  · rintro rfl
    exact follows.view? otherHeld
  · rw [follows.isolated held otherHeld apart use, follows.view? held]

end BlockVM
