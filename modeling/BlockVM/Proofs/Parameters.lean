import Mathlib.Data.Nat.PSub
import BlockVM.Proofs.CallIsolation

namespace BlockVM

/-! How arguments and defaults reach the parameters of a code object. A frame starts only if they fit;
then each parameter has the value that falls to its position, and nothing else is bound. -/

namespace Namespace

variable {name other : String} {value : Value}

/-- Makes bindings one after the other. -/
def bindAll (bindings : List (String × Value)) (space : Namespace) : Namespace :=
  bindings.foldl (fun space (name, value) => space.set name value) space

theorem get?_bindAll_of_notMem {bindings : List (String × Value)} (absent : name ∉ bindings.map (·.1))
    (space : Namespace) : (space.bindAll bindings).get? name = space.get? name := by
  induction bindings generalizing space with
  | nil => rfl
  | cons binding rest ih =>
      obtain ⟨ne, absent⟩ : name ≠ binding.1 ∧ name ∉ rest.map (·.1) := by simpa using absent
      exact (ih absent _).trans (get?_set_of_ne ne _)

/-- Of several bindings of a name the last one holds. -/
theorem get?_bindAll_last {bindings : List (String × Value)} {position : Nat}
    (found : bindings[position]? = some (name, value))
    (last : ∀ later, position < later → (bindings.map (·.1))[later]? ≠ some name) (space : Namespace) :
    (space.bindAll bindings).get? name = some value := by
  induction bindings generalizing space position with
  | nil => cases found
  | cons binding rest ih =>
      cases position with
      | zero =>
          cases Option.some.inj found
          have absent : name ∉ rest.map (·.1) := by
            intro member
            obtain ⟨index, stands⟩ := List.mem_iff_getElem?.mp member
            exact last (index + 1) (Nat.succ_pos index) stands
          exact (get?_bindAll_of_notMem absent _).trans (get?_set_self _ name value)
      | succ position => exact ih found (fun later above => last (later + 1) (Nat.succ_lt_succ above)) _

end Namespace

namespace Code

variable (code : Code Value) (arguments defaults : List Value)

/-- What falls to the parameter at a position: its argument, or else a default. The defaults belong to
the last parameters. -/
def argumentAt (position : Nat) : Option Value :=
  if position < arguments.length then arguments[position]?
  else defaults[defaults.length - (code.argCount - position)]?

/-- The values of all parameters in order. No subtraction may go below zero, and nothing may be taken
from beyond the end of the defaults. -/
def argumentValues? : Option (List Value) := do
  let missing ← code.argCount.psub arguments.length
  let passed ← defaults.length.psub missing
  guard (passed ≤ defaults.length)
  return arguments ++ defaults.drop passed

/-- The arguments and the defaults fit the parameters. -/
structure Accepts : Prop where
  slots : code.argCount ≤ code.localSlots.length
  few : arguments.length ≤ code.argCount
  enough : code.argCount ≤ arguments.length + defaults.length

/-- Of the names of a namespace only the parameters change. Each has what falls to it, and a name that
several parameters share has what falls to the last of them. -/
structure Seeds (before after : Namespace) : Prop where
  bound : ∀ position name, position < code.argCount → code.localSlots[position]? = some name →
    (∀ later, position < later → later < code.argCount → code.localSlots[later]? ≠ some name) →
    ∃ value, code.argumentAt arguments defaults position = some value ∧ after.get? name = some value
  kept : ∀ name, name ∉ code.localSlots.take code.argCount → after.get? name = before.get? name

variable {code arguments defaults}

theorem bindArguments_missing (short : code.localSlots.length < code.argCount) :
    code.bindArguments arguments defaults =
      .error (.missingSlots code.name code.argCount code.localSlots.length) := by
  rw [bindArguments, params, if_neg (Nat.not_le.mpr short)]
  rfl

theorem bindArguments_eq (slots : code.argCount ≤ code.localSlots.length) :
    code.bindArguments arguments defaults =
      if code.argCount < arguments.length ∨ arguments.length + defaults.length < code.argCount then
        .error (.argumentCount code.name code.argCount arguments.length)
      else .ok ((code.localSlots.take code.argCount).zip
        (arguments ++ defaults.drop (defaults.length - (code.argCount - arguments.length)))) := by
  have known : code.params = .ok (code.localSlots.take code.argCount) := if_pos slots
  have count : (code.localSlots.take code.argCount).length = code.argCount := List.length_take_of_le slots
  rw [bindArguments, known]
  change (if _ then _ else _) = _
  rw [count]
  refine if_congr ?_ rfl rfl
  omega

namespace Accepts

theorem argumentValues?_eq (accepts : code.Accepts arguments defaults) :
    code.argumentValues? arguments defaults =
      some (arguments ++ defaults.drop (defaults.length - (code.argCount - arguments.length))) := by
  have missing : code.argCount.psub arguments.length = some (code.argCount - arguments.length) :=
    Nat.psub_eq_sub accepts.few
  have enough : code.argCount - arguments.length ≤ defaults.length := by
    have := accepts.enough
    omega
  have passed := Nat.psub_eq_sub enough
  rw [argumentValues?, missing, Option.bind_eq_bind, Option.bind_some, passed, Option.bind_eq_bind, Option.bind_some,
    guard, if_pos (Nat.sub_le _ _)]
  rfl

theorem length_values (accepts : code.Accepts arguments defaults) :
    (arguments ++ defaults.drop (defaults.length - (code.argCount - arguments.length))).length = code.argCount := by
  obtain ⟨-, few, enough⟩ := accepts
  rw [List.length_append, List.length_drop]
  omega

theorem values_getElem? (accepts : code.Accepts arguments defaults) {position : Nat}
    (inside : position < code.argCount) :
    (arguments ++ defaults.drop (defaults.length - (code.argCount - arguments.length)))[position]? =
      code.argumentAt arguments defaults position := by
  obtain ⟨-, few, enough⟩ := accepts
  unfold argumentAt
  split
  · rename_i given
    exact List.getElem?_append_left given
  · rename_i omitted
    rw [List.getElem?_append_right (Nat.le_of_not_lt omitted), List.getElem?_drop]
    congr 1
    omega

theorem bindings_eq (accepts : code.Accepts arguments defaults) :
    code.bindArguments arguments defaults = .ok ((code.localSlots.take code.argCount).zip
      (arguments ++ defaults.drop (defaults.length - (code.argCount - arguments.length)))) := by
  rw [bindArguments_eq accepts.slots, if_neg]
  obtain ⟨-, few, enough⟩ := accepts
  omega

theorem bindings_names (accepts : code.Accepts arguments defaults) {bindings : List (String × Value)}
    (bound : code.bindArguments arguments defaults = .ok bindings) :
    bindings.map (·.1) = code.localSlots.take code.argCount := by
  cases accepts.bindings_eq.symm.trans bound
  apply List.map_fst_zip
  rw [accepts.length_values, List.length_take_of_le accepts.slots]

theorem bindings_getElem? (accepts : code.Accepts arguments defaults) {bindings : List (String × Value)}
    (bound : code.bindArguments arguments defaults = .ok bindings) {position : Nat}
    (inside : position < code.argCount) {name : String} (slot : code.localSlots[position]? = some name) :
    ∃ value, code.argumentAt arguments defaults position = some value ∧
      bindings[position]? = some (name, value) := by
  cases accepts.bindings_eq.symm.trans bound
  have within : position < (arguments ++ defaults.drop
      (defaults.length - (code.argCount - arguments.length))).length := by
    rwa [accepts.length_values]
  have there := List.getElem?_eq_getElem within
  refine ⟨_, (accepts.values_getElem? inside).symm.trans there, ?_⟩
  rw [List.getElem?_zip_eq_some]
  exact ⟨by rw [List.getElem?_take_of_lt inside, slot], there⟩

theorem seeds (accepts : code.Accepts arguments defaults) {bindings : List (String × Value)}
    (bound : code.bindArguments arguments defaults = .ok bindings) (space : Namespace) :
    code.Seeds arguments defaults space (space.bindAll bindings) := by
  have names := accepts.bindings_names bound
  refine ⟨fun position name inside slot last => ?_, fun name absent => ?_⟩
  · obtain ⟨value, falls, found⟩ := accepts.bindings_getElem? bound inside slot
    refine ⟨value, falls, Namespace.get?_bindAll_last found (fun later above => ?_) space⟩
    rw [names, List.getElem?_take]
    split
    · exact last later above ‹_›
    · nofun
  · exact Namespace.get?_bindAll_of_notMem (names ▸ absent) space

end Accepts

theorem accepts_of_bound {bindings : List (String × Value)}
    (bound : code.bindArguments arguments defaults = .ok bindings) : code.Accepts arguments defaults := by
  rcases Nat.lt_or_ge code.localSlots.length code.argCount with short | slots
  · rw [bindArguments_missing short] at bound
    cases bound
  · rw [bindArguments_eq slots] at bound
    split at bound
    · cases bound
    · exact ⟨slots, by omega, by omega⟩

theorem bindArguments_fault {fault : Fault} (refused : code.bindArguments arguments defaults = .error fault) :
    (fault.kind = .systemError ∧ code.localSlots.length < code.argCount) ∨
      (fault.kind = .argumentCountMismatch ∧ code.argCount ≤ code.localSlots.length ∧
        (code.argCount < arguments.length ∨ arguments.length + defaults.length < code.argCount)) := by
  rcases Nat.lt_or_ge code.localSlots.length code.argCount with short | slots
  · cases (bindArguments_missing short).symm.trans refused
    exact .inl ⟨rfl, short⟩
  · rw [bindArguments_eq slots] at refused
    split at refused
    · rename_i misfit
      cases refused
      exact .inr ⟨rfl, slots, misfit⟩
    · cases refused

end Code

namespace Machine

/-- The next instruction calls a function with these arguments; `rest` is what lies below it. -/
structure Applies (machine : Machine) (code : Code Value) (arguments defaults rest : List Value) (a : Active) :
    Prop where
  fetched : ∃ instruction, fetch machine.active = (.ok instruction, a) ∧
    instruction.opcode = .callFunction ∧ instruction.operand = .int arguments.length
  stack : ∃ id name,
    machine.active.frame.stack = arguments.reverse ++ .function id name code defaults :: rest

namespace Applies

variable {machine : Machine} {code : Code Value} {arguments defaults rest : List Value} {a : Active}

theorem executes (applies : machine.Applies code arguments defaults rest a) :
    ∃ instruction, fetch machine.active = (.ok instruction, a) ∧ instruction.operand = .int arguments.length ∧
      execute instruction.opcode instruction.operand a =
        Exec.enter code arguments defaults (a.discard (arguments.length + 1)) := by
  obtain ⟨⟨instruction, fetched, opcode, operand⟩, id, name, stack⟩ := applies
  refine ⟨instruction, fetched, operand, ?_⟩
  have same : a.frame.stack = arguments.reverse ++ .function id name code defaults :: rest := by
    rw [(fetch_spec fetched).2.2, ← stack]
  have count := arguments.length_reverse
  have found : a.frame.stack[arguments.length]? = some (.function id name code defaults) := by
    rw [same, List.getElem?_append_right count.le, count, Nat.sub_self]
    rfl
  have taken : (a.frame.stack.take arguments.length).reverse = arguments := by
    rw [same, List.take_left' count, List.reverse_reverse]
  rw [opcode, operand]
  change Exec.callFunction arguments.length a = _
  rw [Exec.callFunction_found found, taken]
  rfl

/-- Arguments that do not fit are refused in the frame that makes the call. -/
theorem dispatch_unbound (applies : machine.Applies code arguments defaults rest a) {fault : Fault}
    (refused : code.bindArguments arguments defaults = .error fault) :
    machine.dispatch = .passing (.ofFault machine.callers fault (a.discard (arguments.length + 1))) ∧
      (Passage.ofFault machine.callers fault (a.discard (arguments.length + 1))).active.world.heap.namespaces =
        machine.active.world.heap.namespaces := by
  obtain ⟨instruction, fetched, -, run⟩ := applies.executes
  rw [Exec.enter_eq, refused] at run
  refine ⟨dispatch_failed _ fetched run, ?_⟩
  rw [← (fetch_spec fetched).2.1]
  exact Active.raise_namespaces _ _ _

theorem dispatch_bound (applies : machine.Applies code arguments defaults rest a)
    {bindings : List (String × Value)} (bound : code.bindArguments arguments defaults = .ok bindings)
    (admitted : machine.active.frame.depth < machine.active.world.tracker.limits.recursionDepth) :
    ∃ after, machine.dispatch = .resting (.running after) ∧
      after.callers = machine.waiting arguments.length :: machine.callers ∧
      after.active.frame =
        { code, globals := machine.active.frame.globals, locals := ⟨machine.active.world.heap.namespaces.size⟩
          depth := machine.active.frame.depth + 1 } ∧
      after.active.world.heap.namespaces =
        machine.active.world.heap.namespaces.push (Namespace.empty.bindAll bindings) := by
  obtain ⟨instruction, fetched, operand, run⟩ := applies.executes
  obtain ⟨_, heap, frame⟩ := fetch_spec fetched
  have checked : (a.discard (arguments.length + 1)).world.tracker.checkCall
      (a.discard (arguments.length + 1)).frame.depth = .ok () := by
    have limits : a.world.tracker.limits = machine.active.world.tracker.limits := by
      rw [fetch_tracker fetched, Tracker.count_limits]
    rw [Tracker.checkCall, Active.discard, limits, frame]
    exact if_neg (Nat.not_le.mpr admitted)
  rw [Exec.enter_eq, bound] at run
  simp only [checked] at run
  obtain ⟨count, calling, calls, waits, dispatched⟩ := dispatch_called fetched run
  obtain rfl := Operand.int.inj (calling.operand.symm.trans operand)
  refine ⟨_, dispatched, rfl, ?_, ?_⟩
  · simp only [Active.discard, heap, frame]
  · change a.world.heap.namespaces.push _ = _
    rw [heap]
    rfl

end Applies

end Machine

/-- What it comes to that arguments are refused. The exception starts in the frame that makes the call, or
ends the run if there is none; there is no new frame, and every namespace is as it was. -/
structure Code.Refuses (code : Code Value) (arguments defaults : List Value) (fault : Fault) : Prop where
  kind : fault.kind = .systemError ∨ fault.kind = .argumentCountMismatch
  call : ∀ {machine : Machine} {rest a}, machine.Applies code arguments defaults rest a →
    machine.dispatch = .passing (.ofFault machine.callers fault (a.discard (arguments.length + 1))) ∧
      (Passage.ofFault machine.callers fault (a.discard (arguments.length + 1))).active.world.heap.namespaces =
        machine.active.world.heap.namespaces
  root : defaults = [] → ∀ (environment : Environment) (world : World),
    world.launch code environment arguments = world.refuse fault ∧
      (world.refuse fault).world.heap.namespaces = world.heap.namespaces ∧
      (world.refuse fault).world.events = world.events

/-- What it comes to that arguments are bound. The new frame of a call has its parameters in a namespace of
its own, the root frame in the locals that it is given; no other namespace changes. -/
structure Code.Starts (code : Code Value) (arguments defaults : List Value) : Prop where
  call : ∀ {machine : Machine} {rest a}, machine.Applies code arguments defaults rest a →
    machine.active.frame.depth < machine.active.world.tracker.limits.recursionDepth →
    ∃ after, machine.dispatch = .resting (.running after) ∧
      after.callers = machine.waiting arguments.length :: machine.callers ∧
      after.active.frame =
        { code, globals := machine.active.frame.globals, locals := ⟨machine.active.world.heap.namespaces.size⟩
          depth := machine.active.frame.depth + 1 } ∧
      code.Seeds arguments defaults .empty (after.active.world.heap.space after.active.frame.locals) ∧
      machine.active.world.heap.Spares (fun _ => False) after.active.world.heap
  root : defaults = [] → ∀ (environment : Environment) (world : World),
    environment.locals.index < world.heap.namespaces.size →
    code.Seeds arguments [] (world.heap.space environment.locals)
        ((world.launch code environment arguments).world.heap.space environment.locals) ∧
      world.heap.Spares (· = environment.locals) (world.launch code environment arguments).world.heap ∧
      (0 < world.tracker.limits.recursionDepth → ∃ machine,
        world.launch code environment arguments = .running machine ∧ machine.callers = [] ∧
        machine.active.frame = { code, globals := environment.globals, locals := environment.locals, depth := 1 })

namespace Code

variable {code : Code Value} {arguments defaults : List Value}

theorem refuses_of_error {fault : Fault} (refused : code.bindArguments arguments defaults = .error fault) :
    code.Refuses arguments defaults fault := by
  refine ⟨?_, fun applies => applies.dispatch_unbound refused, ?_⟩
  · exact (bindArguments_fault refused).imp And.left And.left
  · rintro rfl environment world
    refine ⟨?_, rfl, rfl⟩
    rw [World.launch, refused]

theorem launch_bound {bindings : List (String × Value)} (bound : code.bindArguments arguments [] = .ok bindings)
    (environment : Environment) (world : World) :
    (world.launch code environment arguments).world.heap.namespaces =
        (world.heap.updateSpace environment.locals (·.bindAll bindings)).namespaces ∧
      (0 < world.tracker.limits.recursionDepth → ∃ machine,
        world.launch code environment arguments = .running machine ∧ machine.callers = [] ∧
        machine.active.frame =
          { code, globals := environment.globals, locals := environment.locals, depth := 1 }) := by
  simp only [World.launch, bound, Tracker.checkCall]
  by_cases full : world.tracker.limits.recursionDepth ≤ 0
  · rw [if_pos full]
    exact ⟨rfl, fun room => absurd room (Nat.not_lt.mpr full)⟩
  · rw [if_neg full]
    exact ⟨rfl, fun _ => ⟨_, rfl, rfl, rfl⟩⟩

theorem starts_of_ok {bindings : List (String × Value)}
    (bound : code.bindArguments arguments defaults = .ok bindings) : code.Starts arguments defaults := by
  have accepts := accepts_of_bound bound
  refine ⟨fun {machine rest a} applies admitted => ?_, ?_⟩
  · obtain ⟨after, dispatched, callers, frame, pushed⟩ := applies.dispatch_bound bound admitted
    refine ⟨after, dispatched, callers, frame, ?_, ?_, fun ref known _ => Heap.space_of_push pushed known⟩
    · have own : after.active.world.heap.space after.active.frame.locals = Namespace.empty.bindAll bindings := by
        simp [Heap.space, pushed, frame]
      rw [own]
      exact accepts.seeds bound .empty
    · simp [pushed]
  · rintro rfl environment world known
    obtain ⟨namespaces, runs⟩ := launch_bound bound environment world
    have updated : world.heap.Spares (· = environment.locals)
        (world.heap.updateSpace environment.locals (·.bindAll bindings)) := .updateSpace _ _ rfl
    have own : (world.launch code environment arguments).world.heap.space environment.locals =
        (world.heap.space environment.locals).bindAll bindings := by
      simp [Heap.space, namespaces, Heap.updateSpace, known, Array.getElem_modify_self]
    refine ⟨?_, updated.trans (.of_namespaces namespaces), runs⟩
    rw [own]
    exact accepts.seeds bound _

/-- The binding of arguments is exact. It is refused just if the parameters have no slots, or else if there
are too many arguments or too few with the defaults, and then nothing has happened. Otherwise each parameter
has its argument or its default, computed within bounds, and no other name is touched. -/
theorem binding_exact (code : Code Value) (arguments defaults : List Value) :
    ((∃ fault, code.bindArguments arguments defaults = .error fault ∧ fault.kind = .systemError) ↔
      code.localSlots.length < code.argCount) ∧
    ((∃ fault, code.bindArguments arguments defaults = .error fault ∧ fault.kind = .argumentCountMismatch) ↔
      code.argCount ≤ code.localSlots.length ∧
        (code.argCount < arguments.length ∨ arguments.length + defaults.length < code.argCount)) ∧
    (∀ fault, code.bindArguments arguments defaults = .error fault → code.Refuses arguments defaults fault) ∧
    (∀ bindings, code.bindArguments arguments defaults = .ok bindings → code.Starts arguments defaults ∧
      ∃ values, code.argumentValues? arguments defaults = some values ∧ values.length = code.argCount ∧
        bindings = (code.localSlots.take code.argCount).zip values) := by
  refine ⟨⟨?_, ?_⟩, ⟨?_, ?_⟩, fun fault => refuses_of_error, fun bindings bound => ?_⟩
  · rintro ⟨fault, refused, kind⟩
    rcases bindArguments_fault refused with ⟨_, short⟩ | ⟨other, _⟩
    · exact short
    · cases kind.symm.trans other
  · exact fun short => ⟨_, bindArguments_missing short, rfl⟩
  · rintro ⟨fault, refused, kind⟩
    rcases bindArguments_fault refused with ⟨other, _⟩ | ⟨_, misfit⟩
    · cases kind.symm.trans other
    · exact misfit
  · rintro ⟨slots, misfit⟩
    exact ⟨_, (bindArguments_eq slots).trans (if_pos misfit), rfl⟩
  · have accepts := accepts_of_bound bound
    cases accepts.bindings_eq.symm.trans bound
    exact ⟨starts_of_ok bound, _, accepts.argumentValues?_eq, accepts.length_values, rfl⟩

end Code

/-- A module that calls a function of three parameters with one argument. Two parameters share a name, and
there is a default too many. -/
def callShared : Code Value :=
  let callee : Code Value :=
    { name := "shared", instructions := #[], constants := [], names := [], localSlots := ["x", "y", "x"]
      argCount := 3 }
  { name := "module"
    instructions := #[100, 0, 0, 100, 1, 0, 100, 2, 0, 100, 3, 0, 100, 4, 0, 100, 5, 0, 132, 4, 0, 100, 0, 0, 131, 1, 0]
    constants := [.int 10, .int 11, .int 12, .int 13, .code 0 callee, .str 1 "shared"], names := [], localSlots := []
    argCount := 0 }

theorem binding_exact_callShared :
    ∃ machine code rest a after, (twoFrames.launch callShared ⟨⟨0⟩, ⟨0⟩⟩ []).advance 8 = .running machine ∧
      machine.Applies code [.int 10] [.int 10, .int 11, .int 12, .int 13] rest a ∧
      machine.dispatch = .resting (.running after) ∧
      (after.active.world.heap.space after.active.frame.locals).get? "x" = some (.int 13) ∧
      (after.active.world.heap.space after.active.frame.locals).get? "y" = some (.int 12) ∧
      (after.active.world.heap.space after.active.frame.locals).get? "z" = none ∧
      twoFrames.launch code ⟨⟨0⟩, ⟨0⟩⟩ [] = twoFrames.refuse (.argumentCount "shared" 3 0) := by
  obtain ⟨machine, code, rest, a, bindings, ran, applies, room, bound, slots, count, refused⟩ :
      ∃ machine code rest a bindings, (twoFrames.launch callShared ⟨⟨0⟩, ⟨0⟩⟩ []).advance 8 = .running machine ∧
        machine.Applies code [.int 10] [.int 10, .int 11, .int 12, .int 13] rest a ∧
        machine.active.frame.depth < machine.active.world.tracker.limits.recursionDepth ∧
        code.bindArguments [.int 10] [.int 10, .int 11, .int 12, .int 13] = .ok bindings ∧
        code.localSlots = ["x", "y", "x"] ∧ code.argCount = 3 ∧
        code.bindArguments [] [] = .error (.argumentCount "shared" 3 0) :=
    ⟨_, _, _, _, _, rfl, ⟨⟨_, rfl, rfl, rfl⟩, _, _, rfl⟩, by decide, rfl, rfl, rfl, rfl⟩
  obtain ⟨after, dispatched, _, _, seeds, _⟩ := ((code.binding_exact _ _).2.2.2 bindings bound).1.call applies room
  obtain ⟨third, falls, x⟩ := seeds.bound 2 "x" (by omega) (by rw [slots]; rfl) (by omega)
  obtain ⟨second, given, y⟩ := seeds.bound 1 "y" (by omega) (by rw [slots]; rfl) (by
    intro later above below
    obtain rfl : later = 2 := by omega
    simp [slots])
  have z := seeds.kept "z" (by simp [slots, count])
  simp only [Code.argumentAt, count] at falls given
  cases falls
  cases given
  exact ⟨machine, code, rest, a, after, ran, applies, dispatched, x, y, z,
    (((code.binding_exact [] []).2.2.1 _ refused).root rfl _ _).1⟩

end BlockVM
