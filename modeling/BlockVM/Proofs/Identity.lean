import BlockVM.Proofs.Components
import BlockVM.Proofs.Comprehension
import BlockVM.Proofs.RegisteredRuns

namespace BlockVM

/-! Identity and equality. Values that a run comes upon and that have the same identity are the same, and what is
compared with itself turns out equal, as long as no more tuples lie in one another than a comparison looks into. -/

open Value (AllRegistered allRegistered_cons allRegistered_nil)

/-- A host is between two runs, or one is under way. -/
inductive Stage where
  | idle (world : World)
  | underway (status : Status)

/-- The values in the frames of a run, or the one that it ended with. -/
def Status.Roots : Status → Value → Prop
  | .running machine, v =>
      ∃ frame ∈ machine.active.frame :: machine.callers, v ∈ frame.stack ∨ v ∈ frame.code.constants
  | .finished outcome _, v => outcome = .ok v
  | .unending _, _ => False

/-- Values that are found in the heap or in one of the roots. -/
inductive Heap.Reaches (heap : Heap) (roots : Value → Prop) : Value → Prop where
  | root {v : Value} (root : roots v) : Reaches heap roots v
  | listed {v : Value} (ref : ListRef) (member : v ∈ (heap.items ref).toList) : Reaches heap roots v
  | awaited {v : Value} {rest : List Value} (ref : CursorRef) (stands : heap.cursor ref = .items rest)
      (member : v ∈ rest) : Reaches heap roots v
  | bound {v : Value} {name : String} (ref : NamespaceRef) (found : (name, v) ∈ (heap.space ref).entries) :
      Reaches heap roots v
  | item {id : Nat} {items : List Value} {v : Value} (tuple : Reaches heap roots (.tuple id items))
      (member : v ∈ items) : Reaches heap roots v
  | constant {id : Nat} {code : Code Value} {v : Value} (unit : Reaches heap roots (.code id code))
      (member : v ∈ code.constants) : Reaches heap roots v
  | functionConstant {id : Nat} {name : String} {code : Code Value} {defaults : List Value} {v : Value}
      (function : Reaches heap roots (.function id name code defaults)) (member : v ∈ code.constants) :
      Reaches heap roots v
  | default {id : Nat} {name : String} {code : Code Value} {defaults : List Value} {v : Value}
      (function : Reaches heap roots (.function id name code defaults)) (member : v ∈ defaults) :
      Reaches heap roots v

namespace Stage

def world : Stage → World
  | .idle world => world
  | .underway status => status.world

def mapWorld (change : World → World) : Stage → Stage
  | .idle world => .idle (change world)
  | .underway status => .underway (status.mapWorld change)

/-- A value is reached from what the host keeps, or in the run that is under way. -/
def Reaches (stage : Stage) (held : List Value) : Value → Prop :=
  match stage with
  | .idle world => world.heap.Reaches (· ∈ held)
  | .underway status => status.world.heap.Reaches fun v => v ∈ held ∨ status.Roots v

end Stage

/-- The stages that a host can come to, and the values that it keeps then. -/
inductive Session : Stage → List Value → Prop where
  | start (tracker : Tracker) (sink : Sink) (platform : Platform) : Session (.idle (.start tracker sink platform)) []
  | load {world : World} {held : List Value} (constants : List Constant) (before : Session (.idle world) held) :
      Session (.idle { world with heap := (Constant.loadList constants world.heap).2 })
        ((Constant.loadList constants world.heap).1 ++ held)
  | module {world : World} {held : List Value} (before : Session (.idle world) held) :
      Session (.idle { world with heap := world.heap.newModule.2 }) held
  | space {world : World} {held : List Value} {bindings : List (String × Value)} (before : Session (.idle world) held)
      (known : ∀ binding ∈ bindings, binding.2 ∈ held) :
      Session (.idle { world with heap := (world.heap.newNamespace (.ofList bindings)).2 }) held
  | bind {world : World} {held : List Value} {value : Value} (ref : NamespaceRef) (name : String)
      (before : Session (.idle world) held) (known : value ∈ held) :
      Session (.idle { world with heap := world.heap.updateSpace ref (·.set name value) }) held
  | keep {stage : Stage} {held : List Value} {value : Value} (before : Session stage held)
      (reached : stage.Reaches held value) : Session stage (value :: held)
  | change {stage : Stage} {held : List Value} {change : World → World} (before : Session stage held)
      (same : ∀ world, (change world).heap = world.heap) : Session (stage.mapWorld change) held
  | launch {world : World} {held arguments : List Value} {code : Code Value} (environment : Environment)
      (before : Session (.idle world) held) (constants : ∀ constant ∈ code.constants, constant ∈ held)
      (given : ∀ argument ∈ arguments, argument ∈ held) :
      Session (.underway (world.launch code environment arguments)) held
  | step {machine : Machine} {held : List Value} (before : Session (.underway (.running machine)) held) :
      Session (.underway machine.step) held
  | leave {status : Status} {held : List Value} (before : Session (.underway status) held) :
      Session (.idle status.world) held

mutual

theorem Constant.load_registered {register : Register} {heap : Heap} (state : heap.Registered register) :
    (constant : Constant) →
      Accounted Heap.Registered register Value.Registered (constant.load heap).1 (constant.load heap).2
  | .nothing | .bool _ | .int _ | .float _ | .range _ | .builtin _ | .exceptionKind _ => .now state (.atom rfl)
  | .str text => state.newStr text
  | .list items => by
      obtain ⟨more, grown, loaded, known⟩ := Constant.loadList_registered state items
      exact Later.after (loaded.newList known) grown
  | .tuple items => by
      obtain ⟨more, grown, loaded, known⟩ := Constant.loadList_registered state items
      exact Later.after (loaded.newTuple known) grown
  | .code unit => by
      obtain ⟨more, grown, loaded, known⟩ := Constant.loadCode_registered state unit
      exact ⟨_, grown.trans (more.grows_enter .nothing), loaded.enter _,
        .code (known.mono (more.grows_enter _))⟩

theorem Constant.loadList_registered {register : Register} {heap : Heap} (state : heap.Registered register) :
    (constants : List Constant) → Accounted Heap.Registered register AllRegistered
      (Constant.loadList constants heap).1 (Constant.loadList constants heap).2
  | [] => .now state allRegistered_nil
  | constant :: constants => by
      obtain ⟨more, grown, loaded, first⟩ := Constant.load_registered state constant
      obtain ⟨last, grows, state, rest⟩ := Constant.loadList_registered loaded constants
      exact ⟨last, grown.trans grows, state, allRegistered_cons.mpr ⟨first.mono grows, rest⟩⟩

theorem Constant.loadCode_registered {register : Register} {heap : Heap} (state : heap.Registered register) :
    (unit : Code Constant) → Accounted Heap.Registered register (fun more code => AllRegistered more code.constants)
      (Constant.loadCode unit heap).1 (Constant.loadCode unit heap).2
  | ⟨_, _, constants, _, _, _⟩ => Constant.loadList_registered state constants

end

theorem Heap.Reaches.registered {heap : Heap} {roots : Value → Prop} {register : Register} {v : Value}
    (reached : heap.Reaches roots v) (state : heap.Registered register) (known : ∀ v, roots v → v.Registered register) :
    v.Registered register := by
  induction reached with
  | root root => exact known _ root
  | listed ref member => exact state.items ref _ member
  | awaited ref stands member =>
      have rest := state.cursor ref
      rw [stands] at rest
      exact rest _ member
  | bound ref found => exact state.space ref _ (List.mem_map.mpr ⟨_, found, rfl⟩)
  | item _ member ih => exact ih.items _ member
  | constant _ member ih => exact ih.constants _ member
  | functionConstant _ member ih => exact ih.parts.1 _ member
  | default _ member ih => exact ih.parts.2 _ member

theorem Status.Registered.world {register : Register} {status : Status} (registered : status.Registered register) :
    status.world.Registered register := by
  cases status with
  | running machine => exact registered.active.heap
  | finished outcome world => exact registered.2
  | unending world => exact registered

theorem Status.Registered.roots {register : Register} {status : Status} {v : Value}
    (registered : status.Registered register) (root : status.Roots v) : v.Registered register := by
  cases status with
  | running machine =>
      obtain ⟨frame, member, held⟩ := root
      have known : frame.Registered register := by
        rcases List.mem_cons.mp member with rfl | waiting
        · exact registered.active.frame
        · exact registered.callers frame waiting
      exact held.elim (known.stack v) (known.constants v)
  | finished outcome world =>
      cases root
      exact registered.1
  | unending world => cases root

namespace Stage

def Registered (register : Register) : Stage → Prop
  | .idle world => world.Registered register
  | .underway status => status.Registered register

variable {stage : Stage} {register : Register} {held : List Value} {v : Value}

theorem Registered.reached (registered : stage.Registered register) (known : AllRegistered register held)
    (reached : stage.Reaches held v) : v.Registered register := by
  cases stage with
  | idle world => exact Heap.Reaches.registered reached registered known
  | underway status =>
      refine Heap.Reaches.registered reached registered.world fun v root => ?_
      exact root.elim (known v) fun root => Status.Registered.roots registered root

theorem Registered.mapWorld {change : World → World} (registered : stage.Registered register)
    (same : ∀ world, (change world).heap = world.heap) : (stage.mapWorld change).Registered register := by
  have kept (world : World) (state : world.Registered register) : (change world).Registered register := by
    rw [World.Registered, same]
    exact state
  cases stage with
  | idle world => exact kept world registered
  | underway status =>
      cases status with
      | running machine => exact ⟨⟨kept _ registered.active.heap, registered.active.frame⟩, registered.callers⟩
      | finished outcome world => exact ⟨registered.1, kept world registered.2⟩
      | unending world => exact kept world registered

end Stage

theorem World.refuse_registered {world : World} {register : Register} (fault : Fault)
    (state : world.Registered register) : Later register fun more => (world.refuse fault).Registered more :=
  ⟨_, register.grows_enter .nothing, trivial, Heap.Registered.enter state _⟩

theorem World.launch_registered {world : World} {register : Register} {arguments : List Value} {code : Code Value}
    (environment : Environment) (state : world.Registered register) (constants : AllRegistered register code.constants)
    (given : AllRegistered register arguments) :
    Later register fun more => (world.launch code environment arguments).Registered more := by
  have bound := Exec.bindArguments_registered code given allRegistered_nil
  unfold launch
  cases fits : code.bindArguments arguments [] with
  | error fault => exact refuse_registered fault state
  | ok bindings =>
      rw [fits] at bound
      have moved : Heap.Registered register (world.heap.updateSpace environment.locals _) :=
        Heap.Registered.updateSpace state fun _ held => held.setAll bound
      dsimp only
      split
      · exact refuse_registered _ moved
      · exact .now ⟨⟨moved, allRegistered_nil, constants⟩, List.forall_mem_nil _⟩

theorem Heap.newModule_registered {heap : Heap} {register : Register} (state : heap.Registered register) :
    Later register fun more => heap.newModule.2.Registered more := by
  obtain ⟨more, grown, named, name⟩ := state.newStr "__main__"
  have others : AllRegistered more [.nothing, .nothing] :=
    allRegistered_cons.mpr ⟨.atom rfl, allRegistered_cons.mpr ⟨.atom rfl, allRegistered_nil⟩⟩
  have space : Namespace.Registered more
      (.ofList [("__name__", (heap.newStr "__main__").1), ("__doc__", .nothing), ("__package__", .nothing)]) :=
    .ofList (allRegistered_cons.mpr ⟨name, others⟩)
  obtain ⟨last, grows, made, _⟩ := named.newNamespace space
  exact ⟨last, grown.trans grows, made⟩

/-- All that a host has at hand is accounted for by one register. -/
theorem Session.registered {stage : Stage} {held : List Value} (session : Session stage held) :
    ∃ register, register.Tracks ∧ stage.Registered register ∧ AllRegistered register held := by
  induction session with
  | start tracker sink platform => exact ⟨.tracked [], ⟨_, rfl⟩, ⟨rfl, nofun, nofun, nofun⟩, allRegistered_nil⟩
  | load constants _ ih =>
      obtain ⟨register, tracks, state, known⟩ := ih
      obtain ⟨more, grown, loaded, values⟩ := Constant.loadList_registered state constants
      exact ⟨more, grown.tracks tracks, loaded, values.append (known.mono grown)⟩
  | module _ ih =>
      obtain ⟨register, tracks, state, known⟩ := ih
      obtain ⟨more, grown, made⟩ := Heap.newModule_registered state
      exact ⟨more, grown.tracks tracks, made, known.mono grown⟩
  | @space world held bindings _ given ih =>
      obtain ⟨register, tracks, state, known⟩ := ih
      have values : AllRegistered register (bindings.map (·.2)) := by
        intro v member
        obtain ⟨binding, listed, rfl⟩ := List.mem_map.mp member
        exact known _ (given binding listed)
      obtain ⟨more, grown, made, _⟩ := Heap.Registered.newNamespace state (.ofList values)
      exact ⟨more, grown.tracks tracks, made, known.mono grown⟩
  | bind ref name _ given ih =>
      obtain ⟨register, tracks, state, known⟩ := ih
      exact ⟨register, tracks, Heap.Registered.updateSpace state fun _ held => held.set (known _ given), known⟩
  | keep _ reached ih =>
      obtain ⟨register, tracks, state, known⟩ := ih
      exact ⟨register, tracks, state, allRegistered_cons.mpr ⟨state.reached known reached, known⟩⟩
  | change _ same ih =>
      obtain ⟨register, tracks, state, known⟩ := ih
      exact ⟨register, tracks, state.mapWorld same, known⟩
  | launch environment _ constants given ih =>
      obtain ⟨register, tracks, state, known⟩ := ih
      obtain ⟨more, grown, launched⟩ := World.launch_registered environment state
        (fun v member => known v (constants v member)) fun v member => known v (given v member)
      exact ⟨more, grown.tracks tracks, launched, known.mono grown⟩
  | step _ ih =>
      obtain ⟨register, tracks, state, known⟩ := ih
      obtain ⟨more, grown, stepped⟩ := Machine.step_registered state
      exact ⟨more, grown.tracks tracks, stepped, known.mono grown⟩
  | leave _ ih =>
      obtain ⟨register, tracks, state, known⟩ := ih
      exact ⟨register, tracks, Status.Registered.world state, known⟩

theorem Session.advance {status : Status} {held : List Value} (session : Session (.underway status) held) (fuel : Nat) :
    Session (.underway (status.advance fuel)) held := by
  induction fuel generalizing status with
  | zero =>
      rw [Status.advance_zero]
      exact session
  | succ fuel ih =>
      cases status with
      | running machine => exact ih session.step
      | finished outcome world | unending world => exact session

namespace Value

/-- The second value lies so many tuples deep in the first. -/
inductive Enfolds : Nat → Value → Value → Prop where
  | self (v : Value) : Enfolds 0 v v
  | deeper {n id : Nat} {items : List Value} {item w : Value} (member : item ∈ items) (below : Enfolds n item w) :
      Enfolds (n + 1) (.tuple id items) w

/-- No float lies in the value, or in a tuple in it. -/
def Floatless (v : Value) : Prop :=
  ∀ n w, Enfolds n v w → ∀ x, w ≠ .float x

/-- The tuples in a value lie less than so many deep in one another. -/
def ShallowerThan (room : Nat) (v : Value) : Prop :=
  ∀ n w, Enfolds n v w → n < room

variable {heap : Heap} {codes : Code Value → Code Value → Option Bool} {room : Nat} {v a b : Value} {id : Nat}
  {items : List Value}

theorem floatless_tuple (each : ∀ v ∈ items, v.Floatless) : (Value.tuple id items).Floatless := by
  intro n w below
  cases below with
  | self => nofun
  | deeper member below => exact each _ member _ w below

theorem floatless_other (other : ∀ id items, v ≠ .tuple id items) (float : ∀ x, v ≠ .float x) : v.Floatless := by
  intro n w below
  cases below with
  | self => exact float
  | deeper => cases other _ _ rfl

theorem Floatless.item (floatless : (Value.tuple id items).Floatless) (member : v ∈ items) : v.Floatless :=
  fun n w below => floatless (n + 1) w (.deeper member below)

theorem shallowerThan_tuple : (Value.tuple id items).ShallowerThan (room + 1) ↔ ∀ v ∈ items, v.ShallowerThan room := by
  constructor
  · intro shallow v member n w below
    exact Nat.lt_of_succ_lt_succ (shallow (n + 1) w (.deeper member below))
  · intro shallow n w below
    cases below with
    | self => exact Nat.succ_pos room
    | deeper member below => exact Nat.succ_lt_succ (shallow _ member _ w below)

theorem shallowerThan_other (other : ∀ id items, v ≠ .tuple id items) : v.ShallowerThan (room + 1) := by
  intro n w below
  cases below with
  | self => exact Nat.succ_pos room
  | deeper => cases other _ _ rfl

/-- Whether values of this kind are equal depends on more than their identity. -/
def needsContent : Value → Bool
  | .float _ | .str .. | .tuple .. => true
  | _ => false

theorem equalWithin_same (identical : a.same b = true) (settled : a.needsContent = false) :
    equalWithin heap codes (room + 1) a b = some true := by
  fun_cases same a b with
  | case1 => rfl
  | case4 | case5 | case7 => cases settled
  | _ => simp_all [same, equalWithin, number?, Number.equal, Range.equal_eq]

theorem allEqual_self {equal : Value → Value → Option Bool} {holds : Value → Prop}
    (each : ∀ v ∈ items, ∃ answer, equal v v = some answer ∧ (answer = true ↔ holds v)) :
    ∃ answer, allEqual equal items items = some answer ∧ (answer = true ↔ ∀ v ∈ items, holds v) := by
  induction items with
  | nil => exact ⟨true, rfl, by simp⟩
  | cons item items ih =>
      obtain ⟨first, rest⟩ := List.forall_mem_cons.mp each
      obtain ⟨answer, compared, meaning⟩ := first
      rw [allEqual, compared]
      cases answer with
      | true =>
          obtain ⟨answer, compared, rest⟩ := ih rest
          exact ⟨answer, compared, by rw [rest, List.forall_mem_cons, ← meaning]; simp⟩
      | false =>
          refine ⟨false, rfl, ?_⟩
          rw [List.forall_mem_cons, ← meaning]
          simp

/-- Compared with itself a value is equal, unless the tuples in it lie too deep. -/
theorem equalWithin_self (floatless : v.Floatless) :
    ∃ answer, equalWithin heap codes room v v = some answer ∧ (answer = true ↔ v.ShallowerThan room) := by
  induction room generalizing v with
  | zero =>
      refine ⟨false, rfl, iff_of_false nofun fun shallow => ?_⟩
      cases shallow 0 v (.self v)
  | succ room ih =>
      have plain (other : ∀ id items, v ≠ .tuple id items) (equal : equalWithin heap codes (room + 1) v v = some true) :
          ∃ answer, equalWithin heap codes (room + 1) v v = some answer ∧
            (answer = true ↔ v.ShallowerThan (room + 1)) :=
        ⟨true, equal, iff_of_true rfl (shallowerThan_other other)⟩
      cases v with
      | tuple id items =>
          obtain ⟨answer, compared, meaning⟩ := allEqual_self fun v member => ih (floatless.item member)
          refine ⟨answer, ?_, by rw [meaning, shallowerThan_tuple]⟩
          rw [← compared]
          exact if_pos rfl
      | str id text => exact plain (by simp) (congrArg some (beq_self_eq_true text))
      | float x => exact absurd rfl (floatless 0 _ (.self _) x)
      | _ => exact plain (by simp) (equalWithin_same (by simp [same]) rfl)

theorem Registered.str_entered {register : Register} {text : String}
    (registered : (Value.str id text).Registered register) : register.Entered id (.str id text) := by
  cases registered with
  | atom atom => cases atom
  | str entered => exact entered

theorem Registered.tuple_entered {register : Register} (registered : (Value.tuple id items).Registered register) :
    register.Entered id (.tuple id items) := by
  cases registered with
  | atom atom => cases atom
  | tuple entered => exact entered

/-- In a register an identity stands for one text or tuple. -/
theorem Registered.eq_of_same {register : Register} (tracks : register.Tracks) (first : a.Registered register)
    (second : b.Registered register) (identical : a.same b = true) (float : ∀ x, a ≠ .float x) :
    a = b ∨ a.needsContent = false := by
  cases a with
  | float x => exact absurd rfl (float x)
  | str id text =>
      cases b with
      | str other again =>
          obtain rfl : id = other := beq_iff_eq.mp identical
          exact .inl (tracks.unique first.str_entered second.str_entered)
      | _ => cases identical
  | tuple id items =>
      cases b with
      | tuple other again =>
          obtain rfl : id = other := beq_iff_eq.mp identical
          exact .inl (tracks.unique first.tuple_entered second.tuple_entered)
      | _ => cases identical
  | _ => exact .inr rfl

/-- Registered values with the same identity are equal, unless the tuples in them lie too deep. -/
theorem Registered.equalWithin {register : Register} (tracks : register.Tracks) (first : a.Registered register)
    (second : b.Registered register) (identical : a.same b = true) (floatless : a.Floatless) :
    ∃ answer, equalWithin heap codes (room + 1) a b = some answer ∧ (answer = true ↔ a.ShallowerThan (room + 1)) := by
  rcases first.eq_of_same tracks second identical (floatless 0 a (.self a)) with rfl | settled
  · exact equalWithin_self floatless
  · refine ⟨true, equalWithin_same identical settled, iff_of_true rfl (shallowerThan_other ?_)⟩
    rintro id items rfl
    cases settled

/-- A member is found, unless a comparison with another comes to no end before. -/
theorem anyEqual_member {equal : Value → Value → Option Bool} {item : Value} (member : item ∈ items)
    (alike : equal item v = some true) :
    anyEqual equal v items = some true ∨ anyEqual equal v items = none ∧ ∃ other ∈ items, equal other v = none := by
  induction items with
  | nil => cases member
  | cons first items ih =>
      rw [anyEqual]
      cases compared : equal first v with
      | none => exact .inr ⟨rfl, first, List.mem_cons_self, compared⟩
      | some answer =>
          cases answer with
          | true => exact .inl rfl
          | false =>
              rcases List.mem_cons.mp member with rfl | later
              · rw [alike] at compared
                cases compared
              · rcases ih later with found | ⟨endless, other, among, without⟩
                · exact .inl found
                · exact .inr ⟨endless, other, List.mem_cons_of_mem first among, without⟩

theorem contains_member {container : Value} (member : a ∈ container.elements heap) (alike : equal? heap a b = some true) :
    contains heap container b = .ok true ∨
      contains heap container b = .error .unending ∧ ∃ other ∈ container.elements heap, equal? heap other b = none := by
  cases container with
  | list ref | tuple id values =>
      rcases anyEqual_member member alike with found | ⟨endless, other⟩
      · rw [elements] at found
        exact .inl (by simp only [contains, found])
      · rw [elements] at endless
        exact .inr ⟨by simp only [contains, endless], other⟩
  | _ => cases member

end Value

/-- Whatever a host comes upon, at any time: two values without floats that have the same identity are compared to an
answer, and it is that they are equal exactly if no more than `nestingLimit` tuples lie in one another. A list or
tuple that holds such a value is found to hold it, unless it holds another with which the comparison comes to no end. -/
theorem identity_implies_equality {stage : Stage} {held : List Value} {a b : Value} (session : Session stage held)
    (first : stage.Reaches held a) (second : stage.Reaches held b) (identical : a.same b = true)
    (floatless : a.Floatless) :
    (∃ answer, Value.equal? stage.world.heap a b = some answer ∧
      (answer = true ↔ ∀ n w, a.Enfolds n w → n ≤ Value.nestingLimit)) ∧
    ((∀ n w, a.Enfolds n w → n ≤ Value.nestingLimit) → ∀ container, a ∈ container.elements stage.world.heap →
      Value.contains stage.world.heap container b = .ok true ∨
        Value.contains stage.world.heap container b = .error .unending ∧
          ∃ other ∈ container.elements stage.world.heap, Value.equal? stage.world.heap other b = none) := by
  obtain ⟨register, tracks, state, known⟩ := session.registered
  obtain ⟨answer, compared, meaning⟩ :=
    (state.reached known first).equalWithin tracks (state.reached known second) identical floatless
  have shallow : a.ShallowerThan (Value.nestingLimit + 1) ↔ ∀ n w, a.Enfolds n w → n ≤ Value.nestingLimit := by
    simp only [Value.ShallowerThan, Nat.lt_succ_iff]
  refine ⟨⟨answer, compared, meaning.trans shallow⟩, fun near container member => ?_⟩
  obtain rfl : answer = true := meaning.mpr (shallow.mpr near)
  exact Value.contains_member member compared

/-- A world with one module, and the constants that are loaded into it. -/
def World.withConstants (constants : List Constant) : World × List Value :=
  let (values, heap) := Constant.loadList constants Heap.empty.newModule.2
  ({ World.start .unlimited {} with heap }, values)

/-- The start of a run of some instructions in the module. -/
def Status.begin (constants : List Constant) (bytes : List UInt8) : Status :=
  (World.withConstants constants).1.launch ⟨"main", bytes.toArray, (World.withConstants constants).2, [], [], 0⟩
    ⟨⟨0⟩, ⟨0⟩⟩ []

theorem Session.begin (constants : List Constant) (bytes : List UInt8) :
    Session (.underway (.begin constants bytes)) (World.withConstants constants).2 := by
  have loaded : Session (.idle (World.withConstants constants).1) ((World.withConstants constants).2 ++ []) :=
    (Session.start .unlimited {} {}).module.load constants
  rw [List.append_nil] at loaded
  exact .launch _ loaded (fun _ member => member) nofun

/-- A run that puts a tuple next to a list of it. -/
def listedTuple : Status :=
  .begin [.tuple [.str "a"]] [100, 0, 0, 4, 103, 1, 0, 83]

/-- Three instructions later the tuple is equal to itself and is found in the list. -/
theorem identity_implies_equality_listed :
    Value.equal? (listedTuple.advance 3).world.heap (.tuple 2 [.str 1 "a"]) (.tuple 2 [.str 1 "a"]) = some true ∧
      Value.contains (listedTuple.advance 3).world.heap (.list ⟨0⟩) (.tuple 2 [.str 1 "a"]) = .ok true := by
  have session : Session (.underway (listedTuple.advance 3)) [.tuple 2 [.str 1 "a"]] := (Session.begin _ _).advance 3
  have reached : (Stage.underway (listedTuple.advance 3)).Reaches [.tuple 2 [.str 1 "a"]] (.tuple 2 [.str 1 "a"]) :=
    .root (.inl List.mem_cons_self)
  have floatless : (Value.tuple 2 [.str 1 "a"]).Floatless :=
    Value.floatless_tuple fun v member => by
      cases List.mem_singleton.mp member
      exact Value.floatless_other nofun nofun
  have shallow : (Value.tuple 2 [.str 1 "a"]).ShallowerThan 2 :=
    Value.shallowerThan_tuple.mpr fun v member => by
      cases List.mem_singleton.mp member
      exact Value.shallowerThan_other nofun
  have near : ∀ n w, (Value.tuple 2 [.str 1 "a"]).Enfolds n w → n ≤ Value.nestingLimit :=
    fun n w below => (Nat.le_of_lt_succ (shallow n w below)).trans (by decide)
  obtain ⟨⟨answer, compared, meaning⟩, found⟩ :=
    identity_implies_equality session reached reached rfl floatless
  obtain rfl := meaning.mpr near
  refine ⟨compared, ?_⟩
  rcases found near (.list ⟨0⟩) List.mem_cons_self with found | ⟨_, other, member, endless⟩
  · exact found
  · obtain rfl : other = .tuple 2 [.str 1 "a"] := List.mem_singleton.mp member
    cases compared.symm.trans endless

namespace Nesting

open Comprehension (Poised Turns standing wide)

/-- Puts nothing into so many tuples, and then looks for the outermost in a tuple that holds it. -/
def bytes (tuples : Nat) : List UInt8 :=
  wide .loadConst 0 ++ (List.replicate tuples (wide .buildTuple 1)).flatten ++ [Opcode.dupTop.toByte] ++
    wide .buildTuple 1 ++ wide .compareOp 6

/-- Nothing in so many tuples, the innermost of which has the identity `first`. -/
def nest (first : Nat) : Nat → Value
  | 0 => .nothing
  | tuples + 1 => .tuple (first + tuples) [nest first tuples]

theorem floatless_nest (first tuples : Nat) : (nest first tuples).Floatless := by
  induction tuples with
  | zero => exact Value.floatless_other nofun nofun
  | succ tuples ih =>
      refine Value.floatless_tuple fun v member => ?_
      cases List.mem_singleton.mp member
      exact ih

theorem enfolds_nest (first tuples : Nat) : (nest first tuples).Enfolds tuples .nothing := by
  induction tuples with
  | zero => exact .self _
  | succ tuples ih => exact .deeper List.mem_cons_self ih

theorem equal?_nest {heap : Heap} {first tuples : Nat} (deep : Value.nestingLimit < tuples) :
    Value.equal? heap (nest first tuples) (nest first tuples) = some false := by
  obtain ⟨answer, compared, meaning⟩ := Value.equalWithin_self (floatless_nest first tuples)
  rw [Value.equal?, compared]
  cases answer with
  | false => rfl
  | true => exact absurd (meaning.mp rfl tuples .nothing (enfolds_nest first tuples)) (by omega)

/-- A run of the instructions. -/
def deep : Status :=
  .begin [.nothing] (bytes 101)

/-- The frame that it starts with. -/
def root : Frame :=
  { code := ⟨"main", (bytes 101).toArray, [.nothing], [], [], 0⟩, globals := ⟨0⟩, locals := ⟨0⟩, depth := 1 }

variable {heap : Heap} {status : Status} {v : Value} {stack : List Value}

theorem turns_build (offset : Nat) : Turns root ⟨.buildTuple, offset, some 1, .int 1, offset + 3⟩ heap (v :: stack)
    { heap with born := heap.born + 1 } (.tuple heap.born [v] :: stack) (offset + 3) :=
  fun _ _ _ => rfl

theorem turns_dup (offset : Nat) :
    Turns root ⟨.dupTop, offset, none, .none, offset + 1⟩ heap (v :: stack) heap (v :: v :: stack) (offset + 1) :=
  fun _ _ _ => rfl

theorem drop_bytes {k tuples : Nat} (within : k < tuples) :
    ∃ rest, (bytes tuples).drop (3 + 3 * k) = wide .buildTuple 1 ++ rest := by
  obtain ⟨later, rfl⟩ : ∃ later, tuples = k + (later + 1) := ⟨tuples - k - 1, by omega⟩
  let before := wide .loadConst 0 ++ (List.replicate k (wide .buildTuple 1)).flatten
  have length : before.length = 3 + 3 * k := by
    simp [before, wide]
    omega
  have split : bytes (k + (later + 1)) = before ++ (wide .buildTuple 1 ++
      ((List.replicate later (wide .buildTuple 1)).flatten ++ [Opcode.dupTop.toByte] ++ wide .buildTuple 1 ++
        wide .compareOp 6)) := by
    simp [bytes, before, List.replicate_add, List.replicate_succ]
  rw [split]
  exact ⟨_, List.drop_left' length⟩

theorem spells_build {k : Nat} (within : k < 101) :
    root.code.Spells (3 + 3 * k) ⟨.buildTuple, 3 + 3 * k, some 1, .int 1, 3 + 3 * k + 3⟩ := by
  obtain ⟨rest, laid⟩ := drop_bytes within
  have byte (place : Nat) : root.code.instructions[3 + 3 * k + place]? = (wide .buildTuple 1 ++ rest)[place]? := by
    rw [← laid, List.getElem?_drop, root, List.getElem?_toArray]
  exact .wide rfl (byte 0) (byte 1) (byte 2) rfl

/-- Each instruction puts one more tuple around what is there. -/
theorem poised_build {k : Nat} (poised : Poised root heap [.nothing] 3 status) (within : k ≤ 101) :
    Poised root { heap with born := heap.born + k } [nest heap.born k] (3 + 3 * k) (status.advance k) := by
  induction k with
  | zero =>
      rw [Status.advance_zero]
      exact poised
  | succ k ih =>
      rw [Status.advance_add]
      exact (ih (Nat.le_of_succ_le within)).step (spells_build within).decodeAt (turns_build _)

/-- After 104 instructions the outermost tuple is on the stack, and on top of it the one that holds it. -/
theorem poised_deep : Poised root { Heap.empty.newModule.2 with born := 103 }
    [.tuple 102 [nest 1 101], nest 1 101] 310 (deep.advance 104) := by
  have started : Poised root Heap.empty.newModule.2 [] 0 deep := .intro _ _ 0
  have load : root.code.Spells 0 ⟨.loadConst, 0, some 0, .const .nothing, 3⟩ :=
    .wide rfl (by decide +kernel) (by decide +kernel) (by decide +kernel) rfl
  have loaded : Poised root Heap.empty.newModule.2 [.nothing] 3 (deep.advance 1) :=
    started.step load.decodeAt fun _ _ _ => rfl
  have built := poised_build loaded (Nat.le_refl 101)
  have dup : root.code.Spells 306 ⟨.dupTop, 306, none, .none, 307⟩ := .bare rfl (by decide +kernel)
  have doubled := built.step dup.decodeAt (turns_dup 306)
  have build : root.code.Spells 307 ⟨.buildTuple, 307, some 1, .int 1, 310⟩ :=
    .wide rfl (by decide +kernel) (by decide +kernel) (by decide +kernel) rfl
  have held := doubled.step build.decodeAt (turns_build 307)
  rwa [← Status.advance_add, ← Status.advance_add, ← Status.advance_add] at held

theorem turns_member {container : Value} {answer : Bool} (found : Value.contains heap container v = .ok answer) :
    Turns root ⟨.compareOp, 310, some 6, .int 6, 313⟩ heap [container, v] heap [.bool answer] 313 := by
  intro sink events lastOffset
  have compared : Exec.compare heap .member v container = .ok answer := found
  change Exec.thenNext (Exec.act (Act.ofFailing (Exec.compare heap .member v container)) >>= fun found =>
    Exec.push (.bool found)) (standing root heap [] 313 sink events lastOffset) = _
  rw [compared]
  rfl

end Nesting

open Nesting in
/-- A run comes upon a tuple without floats that is not equal to itself, and that is not found in a tuple that holds
nothing else. -/
theorem nested_tuple_differs_from_itself :
    ∃ held container t, Session (.underway (deep.advance 104)) held ∧
      (Stage.underway (deep.advance 104)).Reaches held container ∧ (Stage.underway (deep.advance 104)).Reaches held t ∧
      t.same t = true ∧ t.Floatless ∧ t ∈ container.elements (deep.advance 104).world.heap ∧
      Value.equal? (deep.advance 104).world.heap t t = some false ∧
      Value.contains (deep.advance 104).world.heap container t = .ok false ∧
      ∃ machine, deep.advance 105 = .running machine ∧ machine.active.frame.stack = [.bool false] := by
  have session := (Session.begin [.nothing] (bytes 101)).advance 104
  have poised := poised_deep
  have unequal {heap : Heap} : Value.equal? heap (nest 1 101) (nest 1 101) = some false := equal?_nest (by decide)
  have missing {heap : Heap} : Value.contains heap (.tuple 102 [nest 1 101]) (nest 1 101) = .ok false := by
    simp only [Value.contains, Value.anyEqual, unequal]
  have compare : root.code.Spells 310 ⟨.compareOp, 310, some 6, .int 6, 313⟩ :=
    .wide rfl (by decide +kernel) (by decide +kernel) (by decide +kernel) rfl
  have answered := poised.step compare.decodeAt (turns_member missing)
  rw [← Status.advance_add] at answered
  have onStack (v : Value) (member : v ∈ [.tuple 102 [nest 1 101], nest 1 101]) :
      (Stage.underway (deep.advance 104)).Reaches (World.withConstants [.nothing]).2 v := by
    refine .root (.inr ?_)
    generalize deep.advance 104 = status at poised
    cases poised
    exact ⟨_, List.mem_cons_self, .inl member⟩
  refine ⟨_, .tuple 102 [nest 1 101], nest 1 101, session, onStack _ (by simp), onStack _ (by simp), ?_,
    floatless_nest 1 101, List.mem_cons_self, unequal, missing, ?_⟩
  · exact beq_self_eq_true 101
  · generalize deep.advance 105 = status at answered
    cases answered
    exact ⟨_, rfl, rfl⟩

end BlockVM
