import Mathlib.Data.List.DropRight
import BlockVM.Machine.Unwind

namespace BlockVM

namespace World

/-- Nothing is counted between two worlds, and only events of an allowed sort are added. -/
structure Extends (allowed : Event → Prop) (before after : World) : Prop where
  tracker : after.tracker = before.tracker
  events : ∃ added, after.events.toList = before.events.toList ++ added ∧ ∀ event ∈ added, allowed event

namespace Extends

variable {allowed wider : Event → Prop} {first second third : World}

theorem refl (world : World) : Extends allowed world world :=
  ⟨rfl, [], by simp, by simp⟩

theorem trans (earlier : Extends allowed first second) (later : Extends allowed second third) :
    Extends allowed first third := by
  obtain ⟨counted, added, noted, sorted⟩ := earlier
  obtain ⟨countedLater, addedLater, notedLater, sortedLater⟩ := later
  refine ⟨countedLater.trans counted, added ++ addedLater, ?_, ?_⟩
  · rw [notedLater, noted, List.append_assoc]
  · intro event member
    rcases List.mem_append.mp member with member | member
    · exact sorted event member
    · exact sortedLater event member

theorem mono (extends_ : Extends allowed first second) (admits : ∀ event, allowed event → wider event) :
    Extends wider first second := by
  obtain ⟨counted, added, noted, sorted⟩ := extends_
  exact ⟨counted, added, noted, fun event member => admits event (sorted event member)⟩

theorem heap (world : World) (heap : Heap) : Extends allowed world { world with heap } :=
  ⟨rfl, [], by simp, by simp⟩

theorem emit (world : World) {event : Event} (admitted : allowed event) :
    Extends allowed world (world.emit event) :=
  ⟨rfl, [event], by simp [World.emit], by simpa using admitted⟩

end Extends

end World

namespace Event

def isInstruction : Event → Bool
  | .instruction .. => true
  | _ => false

/-- The events of a signal that has not been absorbed yet. -/
def OfUnwinding : Event → Prop
  | .blockPop .. | .exception .. => True
  | _ => False

theorem OfUnwinding.not_instruction {event : Event} (sort : event.OfUnwinding) :
    event.isInstruction = false := by
  cases event <;> first | rfl | exact sort.elim

end Event

/-- Between two worlds nothing is counted and no instruction is noted. -/
abbrev World.Quiet (before after : World) : Prop :=
  Extends (·.isInstruction = false) before after

theorem World.Extends.quiet {before after : World} (unwound : before.Extends Event.OfUnwinding after) :
    before.Quiet after :=
  unwound.mono fun _ => Event.OfUnwinding.not_instruction

namespace Active

variable {callers : List Frame} {block : Block} {rest : List Block} {signal : Signal} {a : Active}

@[simp] theorem emit_frame (event : Event) : (a.emit event).frame = a.frame := rfl

@[simp] theorem announce_frame (raised : Raised) : (a.announce raised).frame = a.frame := rfl

theorem setHeap_extends {allowed : Event → Prop} (heap : Heap) (a : Active) :
    a.world.Extends allowed (a.setHeap heap).world :=
  ⟨rfl, [], by simp [setHeap], by simp⟩

theorem announce_extends (raised : Raised) (a : Active) :
    a.world.Extends Event.OfUnwinding (a.announce raised).world :=
  .emit a.world trivial

theorem withContext_extends {allowed : Event → Prop} (context exception : ExceptionObject) (a : Active) :
    a.world.Extends allowed (withContext context exception a).2.world :=
  setHeap_extends _ a

theorem throw_spec (callers : List Frame) (exception : ExceptionObject) (a : Active) :
    (throw callers exception a).2.frame = a.frame ∧
      (throw callers exception a).1.kind = exception.kind ∧
      a.world.Extends Event.OfUnwinding (throw callers exception a).2.world := by
  unfold throw
  split
  rename_i chosen after chose
  split at chose
  · cases chose
    exact ⟨rfl, rfl, announce_extends _ a⟩
  · rename_i handled heap _
    split at chose
    · cases chose
      exact ⟨rfl, rfl, (setHeap_extends heap a).trans (announce_extends _ _)⟩
    · cases chose
      exact ⟨rfl, rfl, (setHeap_extends heap a).trans
        ((withContext_extends handled.exception exception (a.setHeap heap)).trans (announce_extends _ _))⟩

@[simp] theorem raise_frame (callers : List Frame) (fault : Fault) (a : Active) :
    (a.raise callers fault).2.frame = a.frame :=
  (throw_spec callers _ _).1

@[simp] theorem raise_kind (callers : List Frame) (fault : Fault) (a : Active) :
    (a.raise callers fault).1.kind = fault.kind :=
  (throw_spec callers _ _).2.1

theorem raise_extends (callers : List Frame) (fault : Fault) (a : Active) :
    a.world.Extends Event.OfUnwinding (a.raise callers fault).2.world :=
  (setHeap_extends _ a).trans (throw_spec callers _ _).2.2

end Active

theorem length_rtake {depth : Nat} {stack : List Value} (enough : depth ≤ stack.length) :
    (stack.rtake depth).length = depth := by
  rw [List.rtake, List.length_drop]
  omega

theorem rtake_rtake {shallow deep : Nat} {stack : List Value} (under : shallow ≤ deep)
    (enough : deep ≤ stack.length) : (stack.rtake deep).rtake shallow = stack.rtake shallow := by
  simp only [List.rtake, List.drop_drop, List.length_drop]
  congr 1
  omega

namespace Frame

theorem trim?_of_le {keep : Nat} {frame : Frame} (enough : keep ≤ frame.stack.length) :
    frame.trim? keep = some { frame with stack := frame.stack.rtake keep } := by
  simp only [trim?, enough, if_true, List.rtake]

theorem trim?_of_lt {keep : Nat} {frame : Frame} (short : frame.stack.length < keep) :
    frame.trim? keep = none := by
  simp only [trim?, Nat.not_le.mpr short, if_false]

end Frame

/-- Values from which an exception can be put back into effect. -/
structure Saved (kind value trace : Value) : Prop where
  kind : ∃ known, kind = .exceptionKind known
  value : value = .nothing ∨ ∃ object, value = .exception object
  trace : trace = .nothing ∨ ∃ frames, trace = .traceback frames

namespace Raised

theorem ofValues_exists {kind value trace : Value} (saved : Saved kind value trace) (heap : Heap) :
    ∃ raised after, Raised.ofValues kind value trace heap = .ok (raised, after) := by
  obtain ⟨⟨known, rfl⟩, value, trace⟩ := saved
  rcases value with rfl | ⟨object, rfl⟩ <;> rcases trace with rfl | ⟨frames, rfl⟩ <;>
    exact ⟨_, _, rfl⟩

theorem ofValues_error {kind value trace : Value} {heap : Heap} {fault : Fault}
    (failed : Raised.ofValues kind value trace heap = .error fault) : fault.kind = .systemError := by
  cases kind with
  | exceptionKind known =>
      cases value with
      | nothing | exception object => cases trace <;> cases failed <;> rfl
      | _ => cases failed; rfl
  | _ => cases failed; rfl

theorem saved_of_ofValues {kind value trace : Value} {heap : Heap} {result : Raised × Heap}
    (built : Raised.ofValues kind value trace heap = .ok result) : Saved kind value trace := by
  cases kind with
  | exceptionKind known =>
      cases value with
      | nothing | exception object =>
          cases trace with
          | nothing | traceback frames => exact ⟨⟨known, rfl⟩, by simp, by simp⟩
          | _ => cases built
      | _ => cases built
  | _ => cases built

end Raised

/-- The data stack still holds what taking the block off needs: all slots below its depth and, for a
running handler, the exception saved above them. -/
def Block.Intact : Block → List Value → Prop
  | .exceptHandler depth, stack =>
      depth + 3 ≤ stack.length ∧
        ∃ kind value trace, stack.rtake (depth + 3) = kind :: value :: trace :: stack.rtake depth ∧
          Saved kind value trace
  | .loop _ depth, stack | .setupExcept _ depth, stack | .finally _ depth, stack =>
      depth ≤ stack.length

namespace Block

def absorbs : Block → Signal → Bool
  | .loop .., .break | .loop .., .continue _ => true
  | .setupExcept .., .raise raised => !raised.kind.isFatal
  | .finally .., .raise raised => !raised.kind.isFatal
  | .finally .., _ => true
  | _, _ => false

/-- A loop stays in place when it is continued. -/
def stays : Block → Signal → Bool
  | .loop .., .continue _ => true
  | _, _ => false

theorem absorbs_of_stays {block : Block} {signal : Signal} (stays : block.stays signal = true) :
    block.absorbs signal = true := by
  cases block <;> cases signal <;> first | rfl | cases stays

end Block

namespace Active

/-- The frame once a block of the given depth is off. -/
def cut (depth : Nat) (a : Active) : Active :=
  { a with frame := { a.frame with stack := a.frame.stack.rtake depth } }

theorem release_plain {block : Block} {a : Active} (plain : block.kind ≠ .exceptHandler) :
    a.release block =
      if block.depth ≤ a.frame.stack.length then (.ok none, a.cut block.depth)
      else (.error .stackUnderflow, a) := by
  cases block with
  | exceptHandler depth => exact absurd rfl plain
  | loop exit depth | setupExcept handler depth | «finally» handler depth =>
      by_cases enough : depth ≤ a.frame.stack.length
      · simp only [release, Block.depth, Frame.trim?_of_le enough, enough, if_true, cut]
      · simp only [release, Block.depth, Frame.trim?_of_lt (Nat.lt_of_not_le enough), enough, if_false]

theorem release_handler {depth : Nat} {a : Active} {kind value trace : Value}
    (enough : depth + 3 ≤ a.frame.stack.length)
    (saved : a.frame.stack.rtake (depth + 3) = kind :: value :: trace :: a.frame.stack.rtake depth) :
    a.release (.exceptHandler depth) =
      match Raised.ofValues kind value trace a.world.heap with
      | .ok (raised, heap) => (.ok (some raised), (a.cut depth).setHeap heap)
      | .error fault => (.error fault, a.cut depth) := by
  simp only [release, Frame.trim?_of_le enough, saved]
  rfl

theorem rtake_handler {depth : Nat} {stack : List Value} (enough : depth + 3 ≤ stack.length) :
    ∃ kind value trace, stack.rtake (depth + 3) = kind :: value :: trace :: stack.rtake depth := by
  have length := length_rtake enough
  have kept : (stack.rtake (depth + 3)).drop 3 = stack.rtake depth := by
    simp only [List.rtake, List.drop_drop]
    congr 1
    omega
  match slots : stack.rtake (depth + 3) with
  | kind :: value :: trace :: rest =>
      rw [slots] at kept
      exact ⟨kind, value, trace, by rw [← kept]; rfl⟩
  | [] | [_] | [_, _] => simp [slots] at length

theorem release_intact {block : Block} {a : Active} (intact : block.Intact a.frame.stack) :
    ∃ restored heap, a.release block = (.ok restored, (a.cut block.depth).setHeap heap) := by
  cases block with
  | exceptHandler depth =>
      obtain ⟨enough, kind, value, trace, slots, saved⟩ := intact
      obtain ⟨raised, heap, built⟩ := Raised.ofValues_exists saved a.world.heap
      exact ⟨some raised, heap, by rw [release_handler enough slots, built]; rfl⟩
  | loop exit depth | setupExcept handler depth | «finally» handler depth =>
      exact ⟨none, a.world.heap, (release_plain (by simp [Block.kind])).trans (if_pos intact)⟩

/-- The data stack is too short, or the exception that a handler saved is no longer one. -/
theorem release_damaged {block : Block} {a : Active} (damaged : ¬ block.Intact a.frame.stack) :
    ∃ fault stack, a.release block = (.error fault, { a with frame := { a.frame with stack } }) ∧
      (fault.kind = .stackUnderflow ∨ block.kind = .exceptHandler ∧ fault.kind = .systemError) := by
  cases block with
  | exceptHandler depth =>
      by_cases enough : depth + 3 ≤ a.frame.stack.length
      · obtain ⟨kind, value, trace, slots⟩ := rtake_handler enough
        cases built : Raised.ofValues kind value trace a.world.heap with
        | error fault =>
            exact ⟨fault, _, by rw [release_handler enough slots, built]; rfl,
              .inr ⟨rfl, Raised.ofValues_error built⟩⟩
        | ok result =>
            refine absurd ⟨enough, kind, value, trace, slots, ?_⟩ damaged
            exact Raised.saved_of_ofValues built
      · refine ⟨.stackUnderflow, a.frame.stack, ?_, .inl rfl⟩
        simp only [release, Frame.trim?_of_lt (Nat.lt_of_not_le enough)]
  | loop exit depth | setupExcept handler depth | «finally» handler depth =>
      exact ⟨.stackUnderflow, a.frame.stack,
        (release_plain (by simp [Block.kind])).trans (if_neg damaged), .inl rfl⟩

end Active

/-- A `finally` block can note where to continue. -/
def Signal.Encodable : Signal → Prop
  | .continue target => target ≤ Word.greatest
  | _ => True

/-- What a signal may become while blocks are taken off: an exception without a context may be
given one. -/
inductive Signal.Carried : Signal → Signal → Prop where
  | same (signal : Signal) : Carried signal signal
  | chained (raised : Raised) (id : Nat) (context : ExceptionObject)
      (bare : raised.exception.context = none) :
      Carried (.raise raised)
        (.raise { raised with exception := { raised.exception with id, context := some context } })

namespace Signal.Carried

variable {first second third : Signal}

theorem trans (earlier : Carried first second) (later : Carried second third) :
    Carried first third := by
  cases earlier with
  | same => exact later
  | chained raised id context bare =>
      cases later with
      | same => exact .chained raised id context bare
      | chained _ _ _ chained => cases chained

theorem encodable (carried : Carried first second) (encodable : first.Encodable) :
    second.Encodable := by
  cases carried with
  | same => exact encodable
  | chained => trivial

theorem absorbs (carried : Carried first second) (block : Block) :
    block.absorbs second = block.absorbs first := by
  cases carried with
  | same => rfl
  | chained raised id context bare => cases block <;> rfl

theorem stays (carried : Carried first second) (block : Block) :
    block.stays second = block.stays first := by
  cases carried with
  | same => rfl
  | chained raised id context bare => cases block <;> rfl

end Signal.Carried

namespace Frame

/-- The frame once its top block is off and the data stack is cut down to the depth of the block. -/
def lowered (block : Block) (rest : List Block) (frame : Frame) : Frame :=
  { frame with blocks := rest, stack := frame.stack.rtake block.depth }

/-- The frame in which a block that is off resumes a signal. -/
def absorbed (block : Block) (signal : Signal) (frame : Frame) : Frame :=
  match block, signal with
  | .loop exit _, .break => { frame with ip := exit }
  | .finally handler _, .return value =>
      { frame with stack := .signal .returning :: value :: frame.stack, ip := handler }
  | .finally handler _, .break => { frame with stack := .signal .breaking :: frame.stack, ip := handler }
  | .finally handler _, .continue target =>
      { frame with
        stack := .signal (.continuing target) :: .int (Int64.ofNat target) :: frame.stack
        ip := handler }
  | .setupExcept handler _, .raise raised | .finally handler _, .raise raised =>
      { frame with
        blocks := .exceptHandler frame.stack.length :: frame.blocks
        stack := raised.toValues ++ (raised.toValues ++ frame.stack)
        ip := handler }
  | _, _ => frame

theorem absorbed_blocks (block : Block) (signal : Signal) (frame : Frame) :
    frame.blocks <:+ (frame.absorbed block signal).blocks := by
  cases block <;> cases signal <;> first | exact List.suffix_refl _ | exact List.suffix_cons _ _

end Frame

namespace Active

theorem restore_of_bare {saved raised : Raised} (a : Active)
    (bare : raised.exception.context.isNone ∧ raised.exception.id ≠ saved.exception.id) :
    a.restore saved (.raise raised) =
      (.raise { raised with exception := (withContext saved.exception raised.exception a).1 },
        (withContext saved.exception raised.exception a).2) :=
  if_pos bare

theorem restore_of_chained {saved raised : Raised} (a : Active)
    (chained : ¬ (raised.exception.context.isNone ∧ raised.exception.id ≠ saved.exception.id)) :
    a.restore saved (.raise raised) = (.raise raised, a) :=
  if_neg chained

theorem restore_spec (saved : Raised) (signal : Signal) (a : Active) :
    signal.Carried (a.restore saved signal).1 ∧ (a.restore saved signal).2.frame = a.frame ∧
      a.world.Extends Event.OfUnwinding (a.restore saved signal).2.world := by
  cases signal with
  | «raise» raised =>
      by_cases bare : raised.exception.context.isNone ∧ raised.exception.id ≠ saved.exception.id
      · rw [restore_of_bare a bare]
        exact ⟨.chained raised _ _ (Option.isNone_iff_eq_none.mp bare.1), rfl,
          withContext_extends saved.exception raised.exception a⟩
      · rw [restore_of_chained a bare]
        exact ⟨.same _, rfl, .refl _⟩
  | «return» value => exact ⟨.same _, rfl, .refl _⟩
  | «break» => exact ⟨.same _, rfl, .refl _⟩
  | «continue» target => exact ⟨.same _, rfl, .refl _⟩

theorem enterContinue_of_le {handler target : Nat} (a : Active) (fits : target ≤ Word.greatest) :
    a.enterContinue handler target =
      .ok (a.enterFinally handler [.signal (.continuing target), .int (Int64.ofNat target)]) :=
  if_pos fits

theorem enterContinue_of_lt {handler target : Nat} (a : Active) (far : Word.greatest < target) :
    a.enterContinue handler target = .error .continueTooFar :=
  if_neg (Nat.not_le.mpr far)

inductive Absorbs (block : Block) (signal : Signal) (a : Active) : Option (Except Fault Active) → Prop where
  | passed (passes : block.absorbs signal = false) : Absorbs block signal a none
  | tooFar {target : Nat} (continues : signal = .continue target) (far : Word.greatest < target) :
      Absorbs block signal a (some (.error .continueTooFar))
  | resumed {after : Active} (absorbs : block.absorbs signal = true)
      (resumed : after.frame = a.frame.absorbed block signal) (quiet : a.world.Quiet after.world) :
      Absorbs block signal a (some (.ok after))

theorem absorb_absorbs {block : Block} {signal : Signal} (a : Active)
    (leaves : block.stays signal = false) : a.Absorbs block signal (a.absorb block signal) := by
  have handled {block : Block} {handler : Nat} {raised : Raised}
      (absorbs : block.absorbs (.raise raised) = !raised.kind.isFatal)
      (resumed : (a.enterHandler handler raised).frame = a.frame.absorbed block (.raise raised)) :
      a.Absorbs block (.raise raised)
        (if raised.kind.isFatal then none else some (.ok (a.enterHandler handler raised))) := by
    cases fatal : raised.kind.isFatal <;> rw [fatal] at absorbs
    · exact .resumed absorbs resumed (.emit a.world rfl)
    · exact .passed absorbs
  cases block with
  | exceptHandler depth => cases signal <;> exact .passed rfl
  | loop exit depth =>
      cases signal with
      | «break» => exact .resumed rfl rfl (.refl a.world)
      | «continue» target => cases leaves
      | «return» value | «raise» raised => exact .passed rfl
  | setupExcept handler depth =>
      cases signal with
      | «raise» raised => exact handled rfl rfl
      | «return» value | «break» | «continue» target => exact .passed rfl
  | «finally» handler depth =>
      cases signal with
      | «raise» raised => exact handled rfl rfl
      | «return» value | «break» => exact .resumed rfl rfl (.refl a.world)
      | «continue» target =>
          rcases Nat.lt_or_ge Word.greatest target with far | fits
          · rw [absorb, enterContinue_of_lt a far]
            exact .tooFar rfl far
          · rw [absorb, enterContinue_of_le a fits]
            exact .resumed rfl rfl (.refl a.world)

theorem supplant_eq {callers : List Frame} {fault : Fault} {a : Active} :
    a.supplant callers fault = .passed (.raise (a.raise callers fault).1) (a.raise callers fault).2 :=
  rfl

/-- Any block but a loop that is continued is taken off first. -/
theorem meet_of_leaves {block : Block} {signal : Signal} (callers : List Frame) (rest : List Block)
    (a : Active) (leaves : block.stays signal = false) :
    a.meet callers block rest signal =
      match { a with frame := { a.frame with blocks := rest } }.release block with
      | (.error fault, a) => (a.emit (.blockPop block.kind rest.length)).supplant callers fault
      | (.ok restored, a) =>
          let a := a.emit (.blockPop block.kind rest.length)
          let (signal, a) := match restored with
            | some saved => a.restore saved signal
            | none => (signal, a)
          match a.absorb block signal with
          | some (.ok a) => .absorbed a
          | some (.error fault) => a.supplant callers fault
          | none => .passed signal a := by
  unfold meet
  split
  · cases leaves
  · dsimp only
    generalize { a with frame := { a.frame with blocks := rest } }.release block = outcome
    rcases outcome with ⟨fault | restored, after⟩ <;> rfl

/-- What becomes of a signal that meets the top block of its frame. -/
inductive Meets (callers : List Frame) (block : Block) (rest : List Block) (signal : Signal)
    (a : Active) : Encounter → Prop where
  | stayed {target : Nat} (continues : signal = .continue target) (stays : block.stays signal = true) :
      Meets callers block rest signal a
        (.absorbed { a with frame := { a.frame with blocks := block :: rest, ip := target } })
  | damaged {fault : Fault} {left : Active} (leaves : block.stays signal = false)
      (damaged : ¬ block.Intact a.frame.stack)
      (kind : fault.kind = .stackUnderflow ∨ block.kind = .exceptHandler ∧ fault.kind = .systemError)
      (below : left.frame.blocks = rest) (noted : a.world.Extends Event.OfUnwinding left.world)
      (released : ∃ off, { a with frame := { a.frame with blocks := rest } }.release block = (.error fault, off)) :
      Meets callers block rest signal a (left.supplant callers fault)
  | tooFar {target : Nat} {left : Active} (leaves : block.stays signal = false)
      (continues : signal = .continue target) (far : Word.greatest < target) (below : left.frame.blocks = rest)
      (noted : a.world.Extends Event.OfUnwinding left.world) :
      Meets callers block rest signal a (left.supplant callers .continueTooFar)
  | passed {onward : Signal} {left : Active} (intact : block.Intact a.frame.stack)
      (carried : signal.Carried onward) (passes : block.absorbs signal = false)
      (lowered : left.frame = a.frame.lowered block rest)
      (noted : a.world.Extends Event.OfUnwinding left.world) :
      Meets callers block rest signal a (.passed onward left)
  | absorbed {onward : Signal} {after : Active} (leaves : block.stays signal = false)
      (intact : block.Intact a.frame.stack) (carried : signal.Carried onward) (absorbs : block.absorbs signal = true)
      (resumed : after.frame = (a.frame.lowered block rest).absorbed block onward)
      (quiet : a.world.Quiet after.world) :
      Meets callers block rest signal a (.absorbed after)

theorem meet_meets (callers : List Frame) (block : Block) (rest : List Block) (signal : Signal)
    (a : Active) : a.Meets callers block rest signal (a.meet callers block rest signal) := by
  cases stays : block.stays signal with
  | true =>
      cases block with
      | loop exit depth =>
          cases signal with
          | «continue» target => exact .stayed rfl stays
          | «return» value | «break» | «raise» raised => cases stays
      | setupExcept handler depth | «finally» handler depth | exceptHandler depth => cases stays
  | false =>
      have met := meet_of_leaves callers rest a stays
      let taken : Active := { a with frame := { a.frame with blocks := rest } }
      by_cases intact : block.Intact a.frame.stack
      · obtain ⟨restored, heap, released⟩ := release_intact (a := taken) intact
        rw [released] at met
        let off := ((taken.cut block.depth).setHeap heap).emit (.blockPop block.kind rest.length)
        have noted : a.world.Extends Event.OfUnwinding off.world :=
          (setHeap_extends heap a).trans (.emit _ trivial)
        obtain ⟨onward, left, carried, same, notedLater, met⟩ : ∃ onward, ∃ left : Active,
            signal.Carried onward ∧ left.frame = off.frame ∧
            off.world.Extends Event.OfUnwinding left.world ∧
            a.meet callers block rest signal = match left.absorb block onward with
              | some (.ok after) => .absorbed after
              | some (.error fault) => left.supplant callers fault
              | none => .passed onward left := by
          cases restored with
          | none => exact ⟨signal, off, .same signal, rfl, .refl _, met⟩
          | some saved =>
              obtain ⟨carried, same, extended⟩ := restore_spec saved signal off
              exact ⟨_, _, carried, same, extended, met⟩
        have absorbs := left.absorb_absorbs ((carried.stays block).trans stays)
        rw [met]
        generalize left.absorb block onward = outcome at absorbs
        cases absorbs with
        | passed passes =>
            exact .passed intact carried ((carried.absorbs block).symm.trans passes) same
              (noted.trans notedLater)
        | tooFar continues far =>
            subst continues
            cases carried
            exact .tooFar stays rfl far (by rw [same]; rfl) (noted.trans notedLater)
        | resumed absorbs resumed quiet =>
            rw [same] at resumed
            exact .absorbed stays intact carried ((carried.absorbs block).symm.trans absorbs) resumed
              ((noted.trans notedLater).quiet.trans quiet)
      · obtain ⟨fault, stack, released, kind⟩ := release_damaged (a := taken) intact
        rw [released] at met
        rw [met]
        exact .damaged stays intact kind rfl (.emit a.world trivial) ⟨_, released⟩

/-- A signal that a block lets pass is the one that came, or something fatal in its place. -/
theorem meet_passed {callers : List Frame} {block : Block} {rest : List Block} {signal onward : Signal}
    {a after : Active} (met : a.meet callers block rest signal = .passed onward after) :
    after.frame.blocks = rest ∧ a.world.Extends Event.OfUnwinding after.world ∧
      (signal.Carried onward ∨ ∃ raised, onward = .raise raised ∧ raised.kind.isFatal = true) := by
  have supplanted {left : Active} {fault : Fault} (fatal : fault.kind.isFatal = true)
      (below : left.frame.blocks = rest) (noted : a.world.Extends Event.OfUnwinding left.world)
      (put : left.supplant callers fault = .passed onward after) :
      after.frame.blocks = rest ∧ a.world.Extends Event.OfUnwinding after.world ∧
        (signal.Carried onward ∨ ∃ raised, onward = .raise raised ∧ raised.kind.isFatal = true) := by
    obtain ⟨rfl, rfl⟩ := Encounter.passed.inj (supplant_eq.symm.trans put)
    refine ⟨?_, noted.trans (raise_extends callers fault left), .inr ⟨_, rfl, ?_⟩⟩
    · rw [raise_frame, below]
    · rw [raise_kind, fatal]
  have meets := a.meet_meets callers block rest signal
  generalize a.meet callers block rest signal = outcome at met meets
  cases meets with
  | stayed | absorbed => cases met
  | damaged _ _ kind below noted =>
      refine supplanted ?_ below noted met
      rcases kind with kind | ⟨_, kind⟩ <;> rw [kind] <;> rfl
  | tooFar _ _ _ below noted => exact supplanted rfl below noted met
  | passed _ carried _ lowered noted =>
      cases met
      exact ⟨by rw [lowered]; rfl, noted, .inl carried⟩

/-- When a signal is absorbed, the blocks below the one it met are still there. -/
theorem meet_absorbed {callers : List Frame} {block : Block} {rest : List Block} {signal : Signal}
    {a after : Active} (met : a.meet callers block rest signal = .absorbed after) :
    rest <:+ after.frame.blocks ∧ a.world.Quiet after.world := by
  have meets := a.meet_meets callers block rest signal
  rw [met] at meets
  cases meets with
  | stayed => exact ⟨List.suffix_cons block rest, .refl _⟩
  | absorbed _ _ _ _ resumed quiet =>
      refine ⟨?_, quiet⟩
      rw [resumed]
      exact Frame.absorbed_blocks block _ (a.frame.lowered block rest)

end Active

end BlockVM
