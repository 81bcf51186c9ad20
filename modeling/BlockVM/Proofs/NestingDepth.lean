import Mathlib.Data.List.Chain
import Mathlib.Logic.Relation
import BlockVM.Proofs.Components
import BlockVM.Proofs.Identity

namespace BlockVM

/-! How deep showing and comparing descend. Both count the lists and tuples that they are in and turn back at the
limit, but a comparison starts to count anew in a code object. So it needs a stack for as many calls as there are
code objects in one another, and comes to no end if they lie in themselves. -/

namespace Value

/-- The text of a value at a level, or `none` if it takes more than `calls` calls in one another. -/
def reprOn (heap : Heap) : (calls level : Nat) → Value → Option String
  | 0, _, _ => none
  | calls + 1, level, v =>
      if nestingLimit < level then some "..."
      else
        match v with
        | .list ref =>
            ((heap.items ref).toList.mapM (reprOn heap calls (level + 1))).map fun texts => joinComma "[" texts ++ "]"
        | .tuple _ items =>
            (items.mapM (reprOn heap calls (level + 1))).map fun texts =>
              joinComma "(" texts ++ (if items.length = 1 then ",)" else ")")
        | v => some (reprWithin heap 1 v)

/-- One call of a comparison, given how items and how code objects are compared. -/
def equalStep (heap : Heap) (items : Value → Value → Option Bool) (codes : Code Value → Code Value → Option Bool)
    (a b : Value) : Option Bool :=
  match a.number?, b.number? with
  | some x, some y => some (x.equal y)
  | _, _ =>
      match a, b with
      | .str _ s, .str _ t => some (s == t)
      | .list r, .list s =>
          if r = s then some true else sameItems items (heap.items r).toList (heap.items s).toList
      | .tuple _ xs, .tuple _ ys => sameItems items xs ys
      | .range p, .range q => some (p.equal q)
      | .code i c, .code j d => if i = j then some true else codes c d
      | a, b => some (a.same b)

/-- The parts of two code objects, given how constants are compared. -/
def codeStep (constants : Value → Value → Option Bool) (c d : Code Value) : Option Bool :=
  if c.name = d.name ∧ c.instructions = d.instructions then
    match sameItems constants c.constants d.constants with
    | some true => some (c.names == d.names && c.localSlots == d.localSlots && c.argCount == d.argCount)
    | other => other
  else some false

/-- Whether two values are equal at a level, or `none` if it takes more than `calls` calls in one another. The
constants of code objects are at level zero again. -/
def equalOn (heap : Heap) : (calls level : Nat) → Value → Value → Option Bool
  | 0, _, _, _ => none
  | calls + 1, level, a, b =>
      if nestingLimit < level then some false
      else equalStep heap (equalOn heap calls (level + 1)) (codeStep (equalOn heap calls 0)) a b

variable {heap : Heap} {codes : Code Value → Code Value → Option Bool} {room depth calls level : Nat}
  {a b v : Value}

theorem equalWithin_succ :
    equalWithin heap codes (room + 1) a b = equalStep heap (equalWithin heap codes room) codes a b :=
  rfl

theorem codeEqualWithin_succ {c d : Code Value} : codeEqualWithin heap (depth + 1) c d =
    codeStep (equalWithin heap (codeEqualWithin heap depth) (nestingLimit + 1)) c d :=
  rfl

theorem equalWithin_codes {i j : Nat} {c d : Code Value} (differ : i ≠ j) :
    equalWithin heap codes (room + 1) (.code i c) (.code j d) = codes c d :=
  if_neg differ

/-- All that a call can do: settle the matter, go through the items of both, or look into two code objects. -/
theorem equalStep_cases (heap : Heap) (a b : Value) :
    (∃ answer, ∀ items codes, equalStep heap items codes a b = some answer) ∨
    (∀ items codes, equalStep heap items codes a b = sameItems items (a.elements heap) (b.elements heap)) ∨
    ∃ i c j d, a = .code i c ∧ b = .code j d ∧ i ≠ j ∧ ∀ items codes, equalStep heap items codes a b = codes c d := by
  cases a with
  | list r =>
      cases b with
      | list s =>
          by_cases same : r = s
          · exact .inl ⟨true, fun _ _ => if_pos same⟩
          · exact .inr (.inl fun _ _ => if_neg same)
      | _ => exact .inl ⟨_, fun _ _ => rfl⟩
  | tuple i xs =>
      cases b with
      | tuple j ys => exact .inr (.inl fun _ _ => rfl)
      | _ => exact .inl ⟨_, fun _ _ => rfl⟩
  | code i c =>
      cases b with
      | code j d =>
          by_cases same : i = j
          · exact .inl ⟨true, fun _ _ => if_pos same⟩
          · exact .inr (.inr ⟨i, c, j, d, rfl, rfl, same, fun _ _ => if_neg same⟩)
      | _ => exact .inl ⟨_, fun _ _ => rfl⟩
  | _ => cases b with | _ => exact .inl ⟨_, fun _ _ => rfl⟩

/-- Where one comparison comes to an answer, another comes to the same. -/
def AnswersAs {α : Type} (one other : α → α → Option Bool) : Prop :=
  ∀ x y answer, one x y = some answer → other x y = some answer

theorem AnswersAs.trans {α : Type} {one other third : α → α → Option Bool} (first : AnswersAs one other)
    (second : AnswersAs other third) : AnswersAs one third :=
  fun x y answer compared => second x y answer (first x y answer compared)

section

variable {one other : Value → Value → Option Bool}

theorem AnswersAs.allEqual (agree : AnswersAs one other) {xs ys : List Value} {answer : Bool}
    (compared : allEqual one xs ys = some answer) : Value.allEqual other xs ys = some answer := by
  induction xs generalizing ys with
  | nil => exact compared
  | cons x xs ih =>
      cases ys with
      | nil => exact compared
      | cons y ys =>
          rw [Value.allEqual] at compared ⊢
          cases first : one x y with
          | none => simp [first] at compared
          | some equal =>
              rw [agree x y equal first]
              cases equal with
              | true => exact ih (by simpa [first] using compared)
              | false => simpa [first] using compared

theorem AnswersAs.sameItems (agree : AnswersAs one other) {xs ys : List Value} {answer : Bool}
    (compared : sameItems one xs ys = some answer) : Value.sameItems other xs ys = some answer := by
  rw [Value.sameItems] at compared ⊢
  split
  · rw [if_pos ‹_›] at compared
    exact agree.allEqual compared
  · rwa [if_neg ‹_›] at compared

theorem AnswersAs.codeStep (agree : AnswersAs one other) : AnswersAs (codeStep one) (codeStep other) := by
  intro c d answer compared
  rw [Value.codeStep] at compared ⊢
  split
  · rw [if_pos ‹_›] at compared
    cases constants : Value.sameItems one c.constants d.constants with
    | none => simp [constants] at compared
    | some equal =>
        rw [agree.sameItems constants]
        simpa [constants] using compared
  · rwa [if_neg ‹_›] at compared

theorem AnswersAs.equalStep {others : Code Value → Code Value → Option Bool} (agree : AnswersAs one other)
    (alike : AnswersAs codes others) : AnswersAs (equalStep heap one codes) (equalStep heap other others) := by
  intro a b answer compared
  rcases equalStep_cases heap a b with ⟨settled, always⟩ | items | ⟨i, c, j, d, rfl, rfl, _, parts⟩
  · rw [always] at compared ⊢
    exact compared
  · rw [items] at compared ⊢
    exact agree.sameItems compared
  · rw [parts] at compared ⊢
    exact alike c d answer compared

end

theorem equalOn_answersAs {more : Nat} (wider : calls ≤ more) (level : Nat) :
    AnswersAs (equalOn heap calls level) (equalOn heap more level) := by
  induction calls generalizing more level with
  | zero => exact fun _ _ _ => nofun
  | succ calls ih =>
      obtain ⟨more, rfl⟩ : ∃ least, more = least + 1 := ⟨more - 1, by omega⟩
      intro a b answer compared
      rw [equalOn] at compared ⊢
      split
      · rwa [if_pos ‹_›] at compared
      · rw [if_neg ‹_›] at compared
        exact AnswersAs.equalStep (ih (by omega) _) (ih (by omega) 0).codeStep a b answer compared

theorem equalWithin_answersAs {others : Code Value → Code Value → Option Bool} (alike : AnswersAs codes others)
    (room : Nat) : AnswersAs (equalWithin heap codes room) (equalWithin heap others room) := by
  induction room with
  | zero => exact fun _ _ _ compared => compared
  | succ room ih => exact ih.equalStep alike

theorem codeEqualWithin_answersAs {more : Nat} (wider : depth ≤ more) :
    AnswersAs (codeEqualWithin heap depth) (codeEqualWithin heap more) := by
  induction depth generalizing more with
  | zero => exact fun _ _ _ => nofun
  | succ depth ih =>
      obtain ⟨more, rfl⟩ : ∃ least, more = least + 1 := ⟨more - 1, by omega⟩
      exact (equalWithin_answersAs (ih (by omega)) _).codeStep

/-- What a comparison answers with some room on the stack is what it answers when it follows as many code objects. -/
theorem equalOn_answers_equalWithin (calls level : Nat) : AnswersAs (equalOn heap calls level)
    (equalWithin heap (codeEqualWithin heap calls) (nestingLimit + 1 - level)) := by
  induction calls generalizing level with
  | zero => exact fun _ _ _ => nofun
  | succ calls ih =>
      have codes : AnswersAs (codeEqualWithin heap calls) (codeEqualWithin heap (calls + 1)) :=
        codeEqualWithin_answersAs (Nat.le_succ calls)
      intro a b answer compared
      rw [equalOn] at compared
      by_cases beyond : nestingLimit < level
      · rw [if_pos beyond] at compared
        rw [Nat.sub_eq_zero_of_le beyond]
        exact compared
      · rw [if_neg beyond] at compared
        obtain ⟨room, rest⟩ : ∃ room, nestingLimit + 1 - level = room + 1 := ⟨nestingLimit - level, by omega⟩
        have items := ih (level + 1)
        rw [show nestingLimit + 1 - (level + 1) = room by omega] at items
        rw [rest]
        exact (items.trans (equalWithin_answersAs codes room)).equalStep (ih 0).codeStep a b answer compared

theorem equalWithin_answers_of_codes (constants : AnswersAs codes (codeStep (equalOn heap calls 0)))
    (sum : room + level = nestingLimit + 1) :
    AnswersAs (equalWithin heap codes room) (equalOn heap (calls + room + 1) level) := by
  induction room generalizing level with
  | zero =>
      intro a b answer compared
      rw [equalOn, if_pos (by omega)]
      exact compared
  | succ room ih =>
      -- Code objects may come at any level, and find at least this much of the stack free.
      have grown : AnswersAs (equalOn heap calls 0) (equalOn heap (calls + (room + 1)) 0) :=
        equalOn_answersAs (Nat.le_add_right calls _) 0
      intro a b answer compared
      rw [equalOn, if_neg (by omega)]
      exact (ih (by omega)).equalStep (constants.trans grown.codeStep) a b answer compared

/-- For each code object that it follows, a comparison needs room on the stack for `nestingLimit + 2` calls. -/
theorem codeEqualWithin_answers_equalOn (depth : Nat) :
    AnswersAs (codeEqualWithin heap depth) (codeStep (equalOn heap (depth * (nestingLimit + 2)) 0)) := by
  induction depth with
  | zero => exact fun _ _ _ => nofun
  | succ depth ih =>
      have constants := equalWithin_answers_of_codes ih (Nat.add_zero (nestingLimit + 1))
      rw [Nat.succ_mul]
      exact constants.codeStep

theorem equalWithin_answers_equalOn (depth : Nat) :
    AnswersAs (equalWithin heap (codeEqualWithin heap depth) (nestingLimit + 1))
      (equalOn heap ((depth + 1) * (nestingLimit + 2)) 0) := by
  rw [Nat.succ_mul]
  exact equalWithin_answers_of_codes (codeEqualWithin_answers_equalOn depth) (Nat.add_zero (nestingLimit + 1))

/-- Two code objects that lie as deep in one value as in the other. Only such are compared with each other. -/
def Meet (heap : Heap) (a b : Value) (c d : Code Value) : Prop :=
  ∃ n i j, n ≤ nestingLimit ∧ Component heap n a (.code i c) ∧ Component heap n b (.code j d) ∧ i ≠ j

/-- Code objects that meet in two values, in the constants of these, and so on, lie at most so many in one another. -/
def CodesWithin (heap : Heap) : Nat → Value → Value → Prop
  | 0, a, b => ∀ c d, ¬ Meet heap a b c d
  | depth + 1, a, b =>
      ∀ c d, Meet heap a b c d → ∀ x ∈ c.constants, ∀ y ∈ d.constants, CodesWithin heap depth x y

section

variable {equal : Value → Value → Option Bool} {xs ys : List Value}

theorem exists_sameItems (each : ∀ x ∈ xs, ∀ y ∈ ys, ∃ answer, equal x y = some answer) :
    ∃ answer, sameItems equal xs ys = some answer := by
  have aligned : ∃ answer, allEqual equal xs ys = some answer := by
    induction xs generalizing ys with
    | nil => exact ⟨true, rfl⟩
    | cons x xs ih =>
        cases ys with
        | nil => exact ⟨true, rfl⟩
        | cons y ys =>
            obtain ⟨answer, first⟩ := each x List.mem_cons_self y List.mem_cons_self
            cases answer with
            | false => exact ⟨false, by simp [allEqual, first]⟩
            | true =>
                obtain ⟨answer, rest⟩ := ih fun x inside y member => each x (.tail _ inside) y (.tail _ member)
                exact ⟨answer, by simp [allEqual, first, rest]⟩
  rw [sameItems]
  split
  · exact aligned
  · exact ⟨false, rfl⟩

theorem exists_codeStep {c d : Code Value}
    (each : ∀ x ∈ c.constants, ∀ y ∈ d.constants, ∃ answer, equal x y = some answer) :
    ∃ answer, codeStep equal c d = some answer := by
  obtain ⟨answer, constants⟩ := exists_sameItems each
  rw [codeStep, constants]
  split
  · cases answer with
    | true => exact ⟨_, rfl⟩
    | false => exact ⟨false, rfl⟩
  · exact ⟨false, rfl⟩

end

theorem exists_equalWithin (met : ∀ n i c j d, n < room → Component heap n a (.code i c) →
      Component heap n b (.code j d) → i ≠ j → ∃ answer, codes c d = some answer) :
    ∃ answer, equalWithin heap codes room a b = some answer := by
  induction room generalizing a b with
  | zero => exact ⟨false, rfl⟩
  | succ room ih =>
      rw [equalWithin_succ]
      rcases equalStep_cases heap a b with ⟨answer, always⟩ | items | ⟨i, c, j, d, rfl, rfl, differ, parts⟩
      · exact ⟨answer, always _ _⟩
      · rw [items]
        refine exists_sameItems fun x inside y member => ih fun n i c j d near first second => ?_
        exact met (n + 1) i c j d (Nat.succ_lt_succ near) (.deeper inside first) (.deeper member second)
      · rw [parts]
        exact met 0 i c j d (Nat.succ_pos room) (.self _) (.self _) differ

theorem CodesWithin.exists_equal (within : CodesWithin heap depth a b) :
    ∃ answer, equalWithin heap (codeEqualWithin heap depth) (nestingLimit + 1) a b = some answer := by
  induction depth generalizing a b with
  | zero =>
      refine exists_equalWithin fun n i c j d near first second differ => ?_
      exact absurd ⟨n, i, j, Nat.le_of_lt_succ near, first, second, differ⟩ (within c d)
  | succ depth ih =>
      refine exists_equalWithin fun n i c j d near first second differ => ?_
      have inside := within c d ⟨n, i, j, Nat.le_of_lt_succ near, first, second, differ⟩
      rw [codeEqualWithin_succ]
      exact exists_codeStep fun x member y also => ih (inside x member y also)

/-- The second code object lies in a constant of the first, where a comparison gets to it. -/
def Encloses (heap : Heap) (outer inner : Code Value) : Prop :=
  ∃ x ∈ outer.constants, ∃ n i, n ≤ nestingLimit ∧ Component heap n x (.code i inner)

/-- No code object in the value, in the constants of one, and so on, lies in itself. -/
def Founded (heap : Heap) (v : Value) : Prop :=
  ∀ n i c inner, n ≤ nestingLimit → Component heap n v (.code i c) →
    Relation.ReflTransGen (Encloses heap) c inner → ¬ Relation.TransGen (Encloses heap) inner inner

mutual

/-- The code objects in a value, and in their constants. Lists are left out, as the heap holds their items. -/
def units : Value → List (Code Value)
  | .tuple _ items => unitsOfAll items
  | .code _ unit => unit :: unitsOfCode unit
  | _ => []

def unitsOfAll : List Value → List (Code Value)
  | [] => []
  | v :: values => v.units ++ unitsOfAll values

def unitsOfCode : Code Value → List (Code Value)
  | ⟨_, _, constants, _, _, _⟩ => unitsOfAll constants

end

/-- The code objects in a value or in a list of the heap. -/
def unitsAmong (heap : Heap) (v : Value) : List (Code Value) :=
  v.units ++ heap.lists.toList.flatMap fun items => unitsOfAll items.toList

section

variable {values : List Value} {n : Nat} {w x : Value}

theorem units_subset_unitsOfAll (member : x ∈ values) : x.units ⊆ unitsOfAll values := by
  induction values with
  | nil => cases member
  | cons v values ih =>
      rw [unitsOfAll]
      rcases List.mem_cons.mp member with rfl | later
      · exact List.subset_append_left _ _
      · exact List.subset_append_of_subset_right _ (ih later)

theorem units_subset_of_constant {i : Nat} {c : Code Value} (member : x ∈ c.constants) :
    x.units ⊆ (Value.code i c).units := by
  rw [units, unitsOfCode]
  exact List.subset_cons_of_subset c (units_subset_unitsOfAll member)

theorem units_subset_of_item {ref : ListRef} (member : x ∈ (heap.items ref).toList) :
    x.units ⊆ heap.lists.toList.flatMap fun items => unitsOfAll items.toList := by
  rw [Heap.items, Array.getD_eq_getD_getElem?] at member
  cases stored : heap.lists[ref.index]? with
  | none =>
      rw [stored] at member
      cases member
  | some row =>
      rw [stored] at member
      intro c found
      exact List.mem_flatMap.mpr ⟨row, (Array.mem_of_getElem? stored).val, units_subset_unitsOfAll member found⟩

theorem units_subset_of_component (inside : Component heap n v w) : w.units ⊆ v.unitsAmong heap := by
  induction inside with
  | self v => exact List.subset_append_left _ _
  | @deeper n v x w member _ ih =>
      refine List.Subset.trans ih (List.append_subset.mpr ⟨?_, List.subset_append_right _ _⟩)
      cases v with
      | list ref => exact List.subset_append_of_subset_right _ (units_subset_of_item member)
      | tuple id items => exact List.subset_append_of_subset_left _ (units_subset_unitsOfAll member)
      | _ => cases member

theorem units_subset_of_encloses {c inner : Code Value} (encloses : Encloses heap c inner) {i : Nat}
    (inside : (Value.code i c).units ⊆ v.unitsAmong heap) : (Value.code i inner).units ⊆ v.unitsAmong heap := by
  obtain ⟨x, member, n, j, _, below⟩ := encloses
  have constant : x.units ⊆ v.unitsAmong heap := List.Subset.trans (units_subset_of_constant member) inside
  have units : (Value.code j inner).units ⊆ x.unitsAmong heap := units_subset_of_component below
  rw [unitsAmong] at units constant ⊢
  exact List.Subset.trans units (List.append_subset.mpr ⟨constant, List.subset_append_right _ _⟩)

end

/-- Code objects of which each lies in the one before are not more than there are. -/
theorem Founded.length_le {row : List (Code Value)} (founded : v.Founded heap) (chain : row.IsChain (Encloses heap))
    (start : ∀ c ∈ row.head?, ∃ n i, n ≤ nestingLimit ∧ Component heap n v (.code i c)) :
    row.length ≤ (v.unitsAmong heap).length := by
  cases row with
  | nil => exact Nat.zero_le _
  | cons first row =>
      obtain ⟨n, i, near, inside⟩ := start first rfl
      have ordered := (chain.imp fun _ _ => Relation.TransGen.single).pairwise
      have reached (c : Code Value) (member : c ∈ first :: row) : Relation.ReflTransGen (Encloses heap) first c := by
        rcases List.mem_cons.mp member with rfl | later
        · exact .refl
        · exact (List.rel_of_pairwise_cons ordered later).to_reflTransGen
      have distinct : (first :: row).Nodup := by
        refine ordered.imp_of_mem fun {c d} member _ below => ?_
        rintro rfl
        exact founded n i first c near inside (reached c member) below
      have among : first :: row ⊆ v.unitsAmong heap := by
        intro c member
        have units : (Value.code i c).units ⊆ v.unitsAmong heap := by
          have below := reached c member
          clear member
          induction below with
          | refl => exact units_subset_of_component inside
          | tail _ encloses ih => exact units_subset_of_encloses encloses ih
        exact units List.mem_cons_self
      exact (List.subperm_of_subset distinct among).length_le

/-- Code objects that meet, more of them in one another than counted. -/
theorem exists_chain (deep : ¬ CodesWithin heap depth a b) :
    ∃ row : List (Code Value × Code Value), row.length = depth + 1 ∧
      row.IsChain (fun p q => Encloses heap p.1 q.1 ∧ Encloses heap p.2 q.2) ∧
      ∀ p ∈ row.head?, Meet heap a b p.1 p.2 := by
  induction depth generalizing a b with
  | zero =>
      simp only [CodesWithin, not_forall, not_not] at deep
      obtain ⟨c, d, meet⟩ := deep
      exact ⟨[(c, d)], rfl, .singleton _, by simpa using meet⟩
  | succ depth ih =>
      simp only [CodesWithin, not_forall] at deep
      obtain ⟨c, d, meet, x, inside, y, member, deep⟩ := deep
      obtain ⟨row, length, chain, start⟩ := ih deep
      refine ⟨(c, d) :: row, by rw [List.length_cons, length], ?_, by simpa using meet⟩
      refine List.isChain_cons.mpr ⟨fun p head => ?_, chain⟩
      obtain ⟨n, i, j, near, first, second, _⟩ := start p head
      exact ⟨⟨x, inside, n, i, near, first⟩, y, member, n, j, near, second⟩

/-- Without a code object that lies in itself, there is a bound. -/
theorem Founded.codesWithin {v : Value} (founded : v.Founded heap) (side : v = a ∨ v = b) :
    CodesWithin heap (v.unitsAmong heap).length a b := by
  by_contra deep
  obtain ⟨row, length, chain, start⟩ := exists_chain deep
  have bounded (part : Code Value × Code Value → Code Value)
      (nested : ∀ p q, Encloses heap p.1 q.1 ∧ Encloses heap p.2 q.2 → Encloses heap (part p) (part q))
      (inside : ∀ p, Meet heap a b p.1 p.2 → ∃ n i, n ≤ nestingLimit ∧ Component heap n v (.code i (part p))) :
      row.length ≤ (v.unitsAmong heap).length := by
    rw [← List.length_map part]
    refine founded.length_le ((List.isChain_map part).mpr (chain.imp nested)) fun c head => ?_
    rw [List.head?_map] at head
    obtain ⟨p, first, rfl⟩ := Option.map_eq_some_iff.mp head
    exact inside p (start p first)
  have short : row.length ≤ (v.unitsAmong heap).length := by
    rcases side with rfl | rfl
    · exact bounded Prod.fst (fun _ _ => And.left) fun _ ⟨n, i, _, near, first, _⟩ => ⟨n, i, near, first⟩
    · exact bounded Prod.snd (fun _ _ => And.right) fun _ ⟨n, _, j, near, _, second, _⟩ => ⟨n, j, near, second⟩
  omega

theorem mapM_eq_some {α β : Type} {f : α → Option β} {g : α → β} {row : List α} (each : ∀ x ∈ row, f x = some (g x)) :
    row.mapM f = some (row.map g) := by
  induction row with
  | nil => rfl
  | cons x row ih =>
      obtain ⟨first, rest⟩ := List.forall_mem_cons.mp each
      simp [List.mapM_cons, first, ih rest]

theorem reprOn_eq (sum : room + level = nestingLimit + 1) (v : Value) :
    reprOn heap (room + 1) level v = some (reprWithin heap room v) := by
  induction room generalizing level v with
  | zero =>
      have beyond : nestingLimit < level := by omega
      exact if_pos beyond
  | succ room ih =>
      have within : ¬ nestingLimit < level := by omega
      have items (row : List Value) :
          row.mapM (reprOn heap (room + 1) (level + 1)) = some (row.map (reprWithin heap room)) :=
        mapM_eq_some fun x _ => ih (by omega) x
      cases v with
      | list _ | tuple _ _ =>
          refine (if_neg within).trans ?_
          dsimp only
          rw [items]
          rfl
      | bool value => cases value <;> exact if_neg within
      | _ => exact if_neg within

end Value

/-- How deep the calls of showing and comparing lie in one another, for any heap. Showing takes no more than the
limit and two. Comparing takes as many again for each further code object, where those that meet lie in one another,
and then comes to an answer. There is a bound on them unless both values hold a code object that lies in itself. -/
theorem descent_bounded (heap : Heap) :
    (∀ v, Value.reprOn heap (Value.nestingLimit + 2) 0 v = some (v.repr heap)) ∧
    (∀ a b depth, Value.CodesWithin heap depth a b → ∃ answer,
      Value.equalOn heap ((depth + 1) * (Value.nestingLimit + 2)) 0 a b = some answer ∧
      (depth ≤ heap.platform.patience → Value.equal? heap a b = some answer)) ∧
    (∀ a b v, v = a ∨ v = b → v.Founded heap → Value.CodesWithin heap (v.unitsAmong heap).length a b) ∧
    ∀ a b answer, (∃ calls, Value.equalOn heap calls 0 a b = some answer) ↔
      ∃ depth, Value.equalWithin heap (Value.codeEqualWithin heap depth) (Value.nestingLimit + 1) a b =
        some answer := by
  refine ⟨Value.reprOn_eq rfl, fun a b depth within => ?_, fun a b v side founded => founded.codesWithin side,
    fun a b answer => ⟨?_, ?_⟩⟩
  · obtain ⟨answer, compared⟩ := within.exists_equal
    refine ⟨answer, Value.equalWithin_answers_equalOn depth a b answer compared, fun patient => ?_⟩
    exact Value.equalWithin_answersAs (Value.codeEqualWithin_answersAs patient) _ a b answer compared
  · rintro ⟨calls, compared⟩
    exact ⟨calls, Value.equalOn_answers_equalWithin calls 0 a b answer compared⟩
  · rintro ⟨depth, compared⟩
    exact ⟨_, Value.equalWithin_answers_equalOn depth a b answer compared⟩

/-- Two lists, each of which holds itself. -/
def loops : Heap :=
  { Heap.empty with lists := #[#[.list ⟨0⟩], #[.list ⟨1⟩]] }

/-- A code object with one of them. -/
def looped (ref : Nat) : Code Value :=
  ⟨"looped", #[], [.list ⟨ref⟩], [], [], 0⟩

/-- Two such code objects are compared to an answer. Neither lies in itself, though their lists do. -/
theorem descent_bounded_looped :
    Value.reprOn loops 102 0 (.list ⟨0⟩) = some ((Value.list ⟨0⟩).repr loops) ∧
      ∃ answer, Value.equalOn loops 204 0 (.code 0 (looped 0)) (.code 1 (looped 1)) = some answer ∧
        Value.equal? loops (.code 0 (looped 0)) (.code 1 (looped 1)) = some answer := by
  have alone {n : Nat} {v w : Value} (inside : v.Component loops n w) (list : v = .list ⟨0⟩) : w = .list ⟨0⟩ := by
    induction inside with
    | self => exact list
    | deeper member _ ih =>
        subst list
        exact ih (List.mem_singleton.mp member)
  have bare (inner : Code Value) : ¬ Value.Encloses loops (looped 0) inner := by
    rintro ⟨x, member, n, i, _, inside⟩
    cases alone inside (List.mem_singleton.mp member)
  have founded : (Value.code 0 (looped 0)).Founded loops := by
    intro n i c inner _ inside below circle
    cases inside with
    | deeper member => cases member
    | self =>
        obtain rfl | ⟨_, encloses, _⟩ := below.cases_head
        · obtain ⟨_, encloses, _⟩ := Relation.TransGen.head'_iff.mp circle
          exact bare _ encloses
        · exact bare _ encloses
  obtain ⟨shown, compared, within, _⟩ := descent_bounded loops
  obtain ⟨answer, answered, equal⟩ := compared _ (.code 1 (looped 1)) 1 (within _ _ _ (.inl rfl) founded)
  exact ⟨shown _, answer, answered, equal (by decide)⟩

section

open Comprehension (Poised standing fetch_standing)

variable {root : Frame} {heap : Heap} {left right : Value}

theorem execute_equal_unending (endless : Value.equal? heap left right = none) (ip : Nat) (sink : Sink)
    (events : Array Event) (lastOffset : Nat) :
    execute .compareOp (.int 2) (standing root heap [right, left] ip sink events lastOffset) =
      .error .unending (standing root heap [] ip sink events lastOffset) := by
  have compared : Exec.compare heap .equal left right = .error .unending := by
    simp only [Exec.compare, endless]
  change Exec.thenNext (Exec.act (Act.ofFailing (Exec.compare heap .equal left right)) >>= fun equal =>
    Exec.push (.bool equal)) (standing root heap [] ip sink events lastOffset) = _
  rw [compared]
  rfl

theorem Comprehension.Poised.unending {ip : Nat} {status : Status} (poised : Poised root heap [right, left] ip status)
    (decoded : root.code.decodeAt ip = .ok ⟨.compareOp, ip, some 2, .int 2, ip + 3⟩)
    (endless : Value.equal? heap left right = none) : ∃ world, status.advance 1 = .unending world := by
  cases poised with
  | intro sink events lastOffset =>
      have ended := Machine.dispatch_unending [] (fetch_standing heap _ decoded sink events lastOffset)
        (execute_equal_unending endless _ sink _ ip)
      exact ⟨_, congrArg Phase.settle ended⟩

end

namespace Entwined

/-- Gives its list. -/
def unit (ref : Nat) : Code Value :=
  ⟨"node", #[100, 0, 0, 83], [.list ⟨ref⟩], [], [], 0⟩

def node : Constant :=
  .code ⟨"node", #[100, 0, 0, 83], [.list []], [], [], 0⟩

/-- Calls a code object for its list, appends the code object to it, does so with another and compares the two. -/
def bytes : List UInt8 :=
  [100, 0, 0, 100, 2, 0, 132, 0, 0, 131, 0, 0, 100, 0, 0, 145, 1, 0, 1,
    100, 1, 0, 100, 2, 0, 132, 0, 0, 131, 0, 0, 100, 1, 0, 145, 1, 0, 1,
    100, 0, 0, 100, 1, 0, 107, 2, 0, 83]

def run : Status :=
  .begin [node, node, .nothing] bytes

section

variable {heap : Heap} {r s i j : Nat} (first : heap.items ⟨r⟩ = #[.code i (unit r)])
  (second : heap.items ⟨s⟩ = #[.code j (unit s)]) (lists : r ≠ s) (objects : i ≠ j)

include first second lists objects

/-- Each comparison of the two leads to one of their lists, and that to one of the two again. -/
theorem codeEqualWithin_none (depth : Nat) : Value.codeEqualWithin heap depth (unit r) (unit s) = none := by
  induction depth with
  | zero => rfl
  | succ depth ih =>
      have codes : Value.equalWithin heap (Value.codeEqualWithin heap depth) Value.nestingLimit
          (.code i (unit r)) (.code j (unit s)) = none := (Value.equalWithin_codes objects).trans ih
      have constants : Value.equalWithin heap (Value.codeEqualWithin heap depth) (Value.nestingLimit + 1)
          (.list ⟨r⟩) (.list ⟨s⟩) = none := by
        have apart : ListRef.mk r ≠ ⟨s⟩ := by simpa using lists
        rw [Value.equalWithin_succ]
        simp [Value.equalStep, Value.number?, apart, first, second, Value.sameItems, Value.allEqual, codes]
      rw [Value.codeEqualWithin_succ]
      simp [Value.codeStep, unit, Value.sameItems, Value.allEqual, constants]

theorem equalOn_none (calls : Nat) : Value.equalOn heap calls 0 (.code i (unit r)) (.code j (unit s)) = none := by
  refine Option.eq_none_iff_forall_ne_some.mpr fun answer compared => ?_
  have followed := Value.equalOn_answers_equalWithin calls 0 _ _ answer compared
  rw [Nat.sub_zero, Value.equalWithin_codes objects, codeEqualWithin_none first second lists objects] at followed
  cases followed

theorem equal?_none : Value.equal? heap (.code i (unit r)) (.code j (unit s)) = none := by
  rw [Value.equal?, Value.equalWithin_codes objects]
  exact codeEqualWithin_none first second lists objects _

end

/-- The frame of the run. -/
def root : Frame :=
  { code := ⟨"main", bytes.toArray, [.code 1 (unit 0), .code 2 (unit 1), .nothing], [], [], 0⟩, globals := ⟨0⟩,
    locals := ⟨0⟩, depth := 1 }

/-- The heap when the two are compared. -/
def heap : Heap :=
  (run.advance 20).world.heap

theorem poised_run : Comprehension.Poised root heap [.code 2 (unit 1), .code 1 (unit 0)] 44 (run.advance 20) :=
  .intro _ _ 41

/-- The comparison is the end of the run. -/
theorem run_unending : ∃ world, run.advance 21 = .unending world := by
  rw [Status.advance_add 20 1]
  exact poised_run.unending rfl (equal?_none rfl rfl (by decide) (by decide))

end Entwined

namespace Tower

/-- A code object, and so many others in one another in its constants. -/
def unit : Nat → Code Constant
  | 0 => ⟨"floor", #[], [], [], [], 0⟩
  | floors + 1 => ⟨"floor", #[], [.code (unit floors)], [], [], 0⟩

/-- What it is loaded as; the innermost one has the identity `first`. -/
def loaded (first : Nat) : Nat → Code Value
  | 0 => ⟨"floor", #[], [], [], [], 0⟩
  | floors + 1 => ⟨"floor", #[], [.code (first + floors) (loaded first floors)], [], [], 0⟩

theorem loadCode_unit (floors : Nat) (heap : Heap) :
    Constant.loadCode (unit floors) heap = (loaded heap.born floors, { heap with born := heap.born + floors }) := by
  induction floors with
  | zero => rfl
  | succ floors ih =>
      rw [unit]
      simp only [Constant.loadCode, Constant.loadList, Constant.load, ih]
      rfl

theorem codeEqualWithin_loaded {heap : Heap} {first second : Nat} (differ : first ≠ second) (depth floors : Nat) :
    Value.codeEqualWithin heap depth (loaded first floors) (loaded second floors) =
      if floors < depth then some true else none := by
  induction depth generalizing floors with
  | zero => rfl
  | succ depth ih =>
      rw [Value.codeEqualWithin_succ]
      cases floors with
      | zero => rfl
      | succ floors =>
          have objects : first + floors ≠ second + floors := by omega
          have constants : Value.equalWithin heap (Value.codeEqualWithin heap depth) (Value.nestingLimit + 1)
              (.code (first + floors) (loaded first floors)) (.code (second + floors) (loaded second floors)) =
                if floors < depth then some true else none := (Value.equalWithin_codes objects).trans (ih floors)
          by_cases within : floors < depth <;>
            simp [Value.codeStep, loaded, Value.sameItems, Value.allEqual, constants, within]

theorem load_pair (floors : Nat) (heap : Heap) :
    (Constant.loadList [.code (unit floors), .code (unit floors)] heap).1 =
      [.code (heap.born + floors) (loaded heap.born floors),
        .code (heap.born + floors + 1 + floors) (loaded (heap.born + floors + 1) floors)] := by
  simp only [Constant.loadList, Constant.load, loadCode_unit, Heap.fresh]

/-- Towers are equal, but it takes more calls than they have floors to find out. -/
theorem equalOn_loaded {heap : Heap} {first second : Nat} (differ : first ≠ second) (floors : Nat) :
    Value.equalOn heap floors 0 (.code (first + floors) (loaded first floors))
        (.code (second + floors) (loaded second floors)) = none ∧
      ∃ calls, Value.equalOn heap calls 0 (.code (first + floors) (loaded first floors))
        (.code (second + floors) (loaded second floors)) = some true := by
  have objects : first + floors ≠ second + floors := by omega
  constructor
  · refine Option.eq_none_iff_forall_ne_some.mpr fun answer answered => ?_
    have followed := Value.equalOn_answers_equalWithin floors 0 _ _ answer answered
    rw [Nat.sub_zero, Value.equalWithin_codes objects, codeEqualWithin_loaded differ,
      if_neg (Nat.lt_irrefl floors)] at followed
    cases followed
  · refine ⟨_, Value.equalWithin_answers_equalOn (floors + 1) _ _ true ?_⟩
    rw [Value.equalWithin_codes objects, codeEqualWithin_loaded differ, if_pos (Nat.lt_succ_self floors)]

end Tower

/-- A run comes upon two code objects that are compared without end, and ends there. Even where comparisons do end,
no bound on the calls in one another holds for all of them. -/
theorem descent_unbounded :
    (∃ held a b, Session (.underway (Entwined.run.advance 20)) held ∧
      (Stage.underway (Entwined.run.advance 20)).Reaches held a ∧
      (Stage.underway (Entwined.run.advance 20)).Reaches held b ∧
      (∀ calls, Value.equalOn (Entwined.run.advance 20).world.heap calls 0 a b = none) ∧
      ∃ world, Entwined.run.advance 21 = .unending world) ∧
    ∀ bound, ∃ world held a b, Session (.idle world) held ∧ a ∈ held ∧ b ∈ held ∧
      Value.equalOn world.heap bound 0 a b = none ∧ ∃ calls, Value.equalOn world.heap calls 0 a b = some true := by
  refine ⟨⟨_, .code 1 (Entwined.unit 0), .code 2 (Entwined.unit 1), (Session.begin _ _).advance 20,
    .root (.inl ?_), .root (.inl ?_), fun calls => ?_, Entwined.run_unending⟩, fun bound => ?_⟩
  · exact List.mem_cons_self
  · exact List.mem_cons_of_mem _ List.mem_cons_self
  · exact Entwined.equalOn_none rfl rfl (by decide) (by decide) calls
  · have session := (Session.start .unlimited {} {}).load [.code (Tower.unit bound), .code (Tower.unit bound)]
    rw [Tower.load_pair] at session
    exact ⟨_, _, _, _, session, List.mem_cons_self, List.mem_cons_of_mem _ List.mem_cons_self,
      Tower.equalOn_loaded (by omega) bound⟩

end BlockVM
