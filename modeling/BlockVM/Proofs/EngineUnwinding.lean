import BlockVM.Proofs.Refinement

namespace BlockVM

/-! # Signals on the engine

A signal under way takes the same turn on the engine as on the machine: it meets the same block, and it leaves its
frame for the same caller. -/

variable {callers : List BlockVM.Frame} {stale returned : Option Value} {signal : Signal} {a : Active}

namespace Active

@[simp] theorem under_frame : (a.under signal).frame = a.frame := by
  cases signal <;> rfl

theorem throw_recover (exception : ExceptionObject) (recovered : Option Raised) (a : Active) :
    { a with recovered }.throw callers exception = a.throw callers exception := by
  obtain ⟨world, frame, former⟩ := a
  unfold throw
  dsimp only
  cases handled? world.heap (frame :: callers) with
  | none => rfl
  | some found =>
      dsimp only
      split <;> rfl

theorem emit_under (event : Event) : (a.under signal).emit event = (a.emit event).under signal := by
  cases signal <;> rfl

/-- A fault supersedes the exception under way. -/
theorem raise_under (fault : Fault) : (a.under signal).raise callers fault = a.raise callers fault := by
  cases signal with
  | «raise» raised => exact throw_recover _ (some raised) (a.setHeap a.world.heap.fresh.2)
  | _ => rfl

theorem release_recover (block : Block) (recovered : Option Raised) (a : Active) :
    { a with recovered }.release block = ((a.release block).1, { (a.release block).2 with recovered }) := by
  cases block with
  | exceptHandler depth =>
      unfold release
      dsimp only
      cases a.frame.trim? (depth + 3) with
      | none => rfl
      | some saved =>
          obtain ⟨_, _, _, stack, _, _, _, _⟩ := saved
          rcases stack with _ | ⟨kind, _ | ⟨value, _ | ⟨trace, rest⟩⟩⟩
          case cons.cons.cons =>
            dsimp only
            cases Raised.ofValues kind value trace a.world.heap <;> rfl
          all_goals rfl
  | loop exit depth | setupExcept handler depth | «finally» handler depth =>
      unfold release
      dsimp only [Block.depth]
      cases a.frame.trim? depth <;> rfl

theorem release_under (block : Block) :
    (a.under signal).release block = ((a.release block).1, (a.release block).2.under signal) := by
  cases signal with
  | «raise» raised => exact release_recover block (some raised) a
  | _ => rfl

end Active

namespace Engine

open BlockVM (Active Passage)

/-- A fault of the engine is raised in the running frame. -/
theorem ofResult_fault (fault : Fault) (depth : a.frame.depth = callers.length + 1) :
    Phase.ofResult (.error (.raised fault) ((a.under signal).embed callers returned)) =
      (BlockVM.Phase.passing (Passage.ofFault callers fault a)).embed returned := by
  have numbered : (a.under signal).frame.depth = callers.length + 1 := Active.under_frame.symm ▸ depth
  change Phase.draining .raising _ = _
  rw [Active.raise_embed fault numbered, Active.raise_under]
  rfl

/-- A saved exception is put back into effect as in the machine. -/
theorem restoreException_embed (saved : Raised) :
    Exec.restoreException saved (signal.why = .raising) ((a.under signal).embed callers (signal.returned stale)) =
      .ok () (((a.restore saved signal).2.under (a.restore saved signal).1).embed callers
        ((a.restore saved signal).1.returned stale)) ∧
      (a.restore saved signal).1.why = signal.why ∧
      (a.restore saved signal).1.returned stale = signal.returned stale := by
  cases signal with
  | «return» value | «break» | «continue» target => exact ⟨rfl, rfl, rfl⟩
  | «raise» raised =>
      change (if raised.exception.context.isNone ∧ raised.exception.id ≠ saved.exception.id then _ else _ :
        Exec Unit) _ = _ ∧ _
      unfold Active.restore
      dsimp only
      split <;> exact ⟨rfl, rfl, rfl⟩

/-- Where the outcome of a block that has been taken off leads to. -/
def absorbedPhase (callers : List BlockVM.Frame) (signal : Signal) (a : Active) :
    Option (Except Fault Active) → BlockVM.Phase
  | some (.ok after) => .resting (.running ⟨after, callers⟩)
  | some (.error fault) => .passing (Passage.ofFault callers fault a)
  | none => .passing ⟨signal, a, callers⟩

/-- A turn of the engine leads to where the machine is, by an ordinary fault if by any. If there is a value in the slot
for the return value, it was there before. -/
structure Matches (stale : Option Value) (signal : Signal) (result : EStateM.Result Failure Engine Outcome)
    (phase : BlockVM.Phase) (later : Option Value) : Prop where
  leads : Phase.ofResult result = phase.embed later
  slot : later = none ∨ later = signal.returned stale
  ordinary : Leaves (fun _ => True) result

/-- A frame that goes on. -/
theorem Matches.resumed {result : EStateM.Result Failure Engine Outcome} {after : Active} {later : Option Value}
    (ran : result = .ok .resumed (after.embed callers later)) (slot : later = none ∨ later = signal.returned stale) :
    Matches stale signal result (.resting (.running ⟨after, callers⟩)) later :=
  ⟨ran ▸ rfl, slot, ran ▸ trivial⟩

/-- The frame goes on where an operation leaves it. -/
theorem run_resumed {machine : BlockVM.Exec Unit} {engine : Exec Unit} {after : Active}
    (mirrors : Mirrors callers returned machine engine) (depth : a.frame.depth = callers.length + 1)
    (ran : machine a = .ok () after) :
    (do engine; return .resumed : Exec Outcome) (a.embed callers returned) =
      .ok .resumed (after.embed callers returned) := by
  obtain ⟨same, -⟩ := mirrors a depth
  change EStateM.bind engine _ _ = _
  unfold EStateM.bind
  rw [same, ran]
  rfl

/-- A block does with a signal what it does in the machine. -/
theorem absorb_embed (block : BlockVM.Block) (depth : a.frame.depth = callers.length + 1)
    (waiting : ∀ raised, signal = .raise raised → a.recovered = none) (encodable : signal.Encodable) :
    ∃ later, Matches stale signal
      (Exec.absorb block.embed signal.why ((a.under signal).embed callers (signal.returned stale)))
      (absorbedPhase callers signal a (a.absorb block signal)) later := by
  have jumps {returned : Option Value} (target : Nat) :
      Mirrors callers returned (BlockVM.Exec.jump target) (Exec.jump target) :=
    .onData (BlockVM.Exec.conforms_jump target).keeps
  have caught {raised : Raised} (none : a.recovered = none) (handler level : Nat) (kind : BlockKind) :
      Matches stale (.raise raised) ((do
        if ← Exec.pendingIsCatchable then
          Exec.enterHandler ⟨kind, some handler, level⟩
          return .resumed
        else return .signalled .raising : Exec Outcome) ((a.under (.raise raised)).embed callers stale))
        (absorbedPhase callers (.raise raised) a
          (if raised.kind.isFatal then .none else some (.ok (a.enterHandler handler raised)))) stale := by
    change Matches _ _ ((if !raised.kind.isFatal then _ else _ : Exec Outcome) _) _ _
    cases raised.kind.isFatal with
    | true => exact ⟨rfl, .inr rfl, trivial⟩
    | false =>
        obtain ⟨world, ⟨code, globals, locals, stack, blocks, ip, last, number⟩, recovered⟩ := a
        obtain rfl : recovered = .none := none
        have counted : (blocks.map BlockVM.Block.embed).length = blocks.length := List.length_map _
        have entered : (do
            Exec.enterHandler ⟨kind, some handler, level⟩
            return .resumed : Exec Outcome) (Active.embed callers stale (Active.under (.raise raised)
              ⟨world, ⟨code, globals, locals, stack, blocks, ip, last, number⟩, .none⟩)) =
            .ok .resumed (Active.embed callers stale
              ⟨world.emit (.blockPush .exceptHandler ((blocks.map BlockVM.Block.embed).length + 1)),
                ⟨code, globals, locals, raised.toValues ++ (raised.toValues ++ stack),
                  .exceptHandler stack.length :: blocks, handler, last, number⟩, .none⟩) := rfl
        rw [counted] at entered
        exact .resumed entered (.inr rfl)
  cases block with
  | loop exit level =>
      cases signal with
      | «break» => exact ⟨stale, .resumed (run_resumed (jumps exit) depth rfl) (.inr rfl)⟩
      | «return» value | «continue» target | «raise» raised => exact ⟨Signal.returned stale _, rfl, .inr rfl, trivial⟩
  | setupExcept handler level =>
      cases signal with
      | «raise» raised => exact ⟨stale, caught (waiting raised rfl) handler level .setupExcept⟩
      | «break» | «return» value | «continue» target => exact ⟨Signal.returned stale _, rfl, .inr rfl, trivial⟩
  | «finally» handler level =>
      cases signal with
      | «raise» raised => exact ⟨stale, caught (waiting raised rfl) handler level .finally⟩
      | «break» =>
          exact ⟨stale, .resumed (run_resumed (.bind (.push (.signal .breaking)) fun _ => jumps handler) depth rfl)
            (.inr rfl)⟩
      | «return» value =>
          exact ⟨none, .resumed (run_resumed (.bind (.push value) fun _ => .bind (.push (.signal .returning)) fun _ =>
            jumps handler) depth rfl) (.inl rfl)⟩
      | «continue» target =>
          have fits : target ≤ Word.greatest := encodable
          refine ⟨stale, ?_⟩
          change Matches _ _ (EStateM.bind (if target ≤ Word.greatest then do
              Exec.push (.int (Int64.ofNat target))
              Exec.push (.signal (.continuing target))
              Exec.jump handler
            else Exec.raise .continueTooFar) (fun _ => pure .resumed) (a.embed callers stale))
              (absorbedPhase callers (.continue target) a (some (a.enterContinue handler target))) stale
          rw [Active.enterContinue, if_pos fits, if_pos fits]
          exact .resumed (run_resumed (.bind (.push _) fun _ => .bind (.push _) fun _ => jumps handler) depth rfl)
            (.inr rfl)
  | exceptHandler level => cases signal <;> exact ⟨Signal.returned stale _, rfl, .inr rfl, trivial⟩

/-- Where a signal that has met a block leads to. -/
def encounterPhase (callers : List BlockVM.Frame) : Encounter → BlockVM.Phase
  | .absorbed a => .resting (.running ⟨a, callers⟩)
  | .passed signal a => .passing ⟨signal, a, callers⟩

theorem unwind_eq (block : BlockVM.Block) (rest : List BlockVM.Block) (why : Interruption) (a : Active) :
    Exec.unwind block.embed (rest.map BlockVM.Block.embed) why (a.embed callers returned) =
      match { a with frame := { a.frame with blocks := rest } }.release block with
      | (.error fault, off) =>
          .error (.raised fault) ((off.emit (.blockPop block.kind rest.length)).embed callers returned)
      | (.ok restored, off) => (do
          match restored with
          | some saved => Exec.restoreException saved (why = .raising)
          | none => pure ()
          Exec.absorb block.embed why : Exec Outcome)
            ((off.emit (.blockPop block.kind rest.length)).embed callers returned) := by
  have counted : (rest.map BlockVM.Block.embed).length = rest.length := List.length_map _
  let lowered : Active := { a with frame := { a.frame with blocks := rest } }
  change EStateM.bind (Exec.attempt (Exec.unwindBlock block.embed)) _ (lowered.embed callers returned) = _
  unfold EStateM.bind Exec.attempt
  rw [unwindBlock_embed, ← counted]
  rcases lowered.release block with ⟨fault | _ | restored, off⟩ <;> rfl

/-- A block that is taken off against a signal does what it does in the machine. -/
theorem unwind_embed {block : BlockVM.Block} (rest : List BlockVM.Block) (depth : a.frame.depth = callers.length + 1)
    (waiting : ∀ raised, signal = .raise raised → a.recovered = none) (encodable : signal.Encodable)
    (leaves : block.stays signal = false) :
    ∃ later, Matches stale signal (Exec.unwind block.embed (rest.map BlockVM.Block.embed) signal.why
      ((a.under signal).embed callers (signal.returned stale)))
      (encounterPhase callers (a.meet callers block rest signal)) later := by
  let lowered : Active := { a with frame := { a.frame with blocks := rest } }
  have lower : { a.under signal with frame := { (a.under signal).frame with blocks := rest } } =
      lowered.under signal := by
    cases signal <;> rfl
  have anchored := (lowered.release_anchored block).depth.trans depth
  have kept := Active.release_recovered block lowered
  have errs := lowered.release_errs block
  have offered {onward : Signal} {off : Active} (same : onward.why = signal.why)
      (slot : onward.returned stale = signal.returned stale) (numbered : off.frame.depth = callers.length + 1)
      (waiting : ∀ raised, onward = .raise raised → off.recovered = none) (encodable : onward.Encodable) :
      ∃ later, Matches stale signal (Exec.absorb block.embed signal.why
        ((off.under onward).embed callers (onward.returned stale)))
        (encounterPhase callers (match off.absorb block onward with
          | some (.ok after) => .absorbed after
          | some (.error fault) => off.supplant callers fault
          | none => .passed onward off)) later := by
    obtain ⟨later, leads, left, ordinary⟩ := @absorb_embed callers stale onward off block numbered waiting encodable
    rw [same] at leads ordinary
    refine ⟨later, leads.trans ?_, left.imp_right fun last => last.trans slot, ordinary⟩
    rcases off.absorb block onward with _ | _ | after <;> rfl
  rw [unwind_eq, lower, Active.release_under, Active.meet_of_leaves callers rest a leaves]
  change ∃ later, Matches _ _ (match ((lowered.release block).1, (lowered.release block).2.under signal) with
    | (.error fault, off) => _
    | (.ok restored, off) => _) (encounterPhase callers (match lowered.release block with
      | (.error fault, off) => _
      | (.ok restored, off) => _)) later
  rcases run : lowered.release block with ⟨fault | _ | saved, off⟩
  · rw [run] at anchored errs
    dsimp only
    rw [Active.emit_under]
    exact ⟨_, ofResult_fault fault anchored, .inr rfl, errs, trivial⟩
  · rw [run] at anchored kept
    dsimp only
    rw [Active.emit_under]
    exact offered rfl rfl anchored (fun raised raises => kept.trans (waiting raised raises)) encodable
  · rw [run] at anchored kept
    let left := off.emit (.blockPop block.kind rest.length)
    obtain ⟨restored, same, slot⟩ := @restoreException_embed callers stale signal left saved
    dsimp only
    rw [Active.emit_under]
    change ∃ later, Matches _ _ (EStateM.bind (Exec.restoreException saved (signal.why = .raising))
      (fun _ => Exec.absorb block.embed signal.why) _) _ later
    unfold EStateM.bind
    rw [restored]
    refine offered same slot ?_ (fun raised raises => Active.restore_recovered saved ?_ raises) ?_
    · exact (Active.restore_anchored saved signal left).depth.trans anchored
    · exact fun former raised => kept.trans (waiting former raised)
    · exact (Active.restore_spec saved signal left).1.encodable encodable

/-- A signal leaves its frame as in the machine. -/
theorem leave_embed (numbered : Numbered (a.frame :: callers)) :
    ∃ later, Matches stale signal (Exec.leave signal.why ((a.under signal).embed callers (signal.returned stale)))
      (Passage.leave ⟨signal, a, callers⟩) later := by
  obtain ⟨depth, below⟩ := numbered
  have counted : a.frame.depth - 1 = (embedFrames callers).length := by
    rw [embedFrames_length, depth, Nat.add_sub_cancel]
  cases signal with
  | «break» => exact ⟨stale, @ofResult_fault callers stale .break a .breakOutsideLoop depth, .inr rfl, rfl, trivial⟩
  | «continue» target =>
      exact ⟨stale, @ofResult_fault callers stale (.continue target) a .continueOutsideLoop depth, .inr rfl, rfl, trivial⟩
  | «return» value =>
      refine ⟨none, ?_⟩
      unfold Passage.leave
      dsimp only
      rw [counted]
      cases callers with
      | nil => exact ⟨rfl, .inl rfl, trivial⟩
      | cons caller rest =>
          let resumed : Active := ⟨a.world.emit (.return (embedFrames (caller :: rest)).length), caller, none⟩
          exact .resumed (@run_resumed rest none resumed _ _ _ (.push value) below.1 rfl) (.inl rfl)
  | «raise» raised =>
      refine ⟨stale, ?_⟩
      unfold Passage.leave
      dsimp only
      rw [counted]
      cases callers with
      | nil => exact ⟨rfl, .inr rfl, trivial⟩
      | cons caller rest =>
          let left := a.emit (.return (embedFrames (caller :: rest)).length)
          let noted := raised.leave a.frame left.world.heap
          let resumed : Active := ⟨(left.setHeap noted.2).world, caller, none⟩
          refine ⟨?_, .inr rfl, trivial⟩
          change Phase.draining .raising ((resumed.embed rest stale).setPending noted.1) = _
          rw [Active.setPending_embed noted.1 below.1]
          rfl

theorem drain_of_nil (why : Interruption) (empty : a.frame.blocks = []) :
    Exec.drain why (a.embed callers returned) = Exec.leave why (a.embed callers returned) := by
  obtain ⟨world, ⟨code, globals, locals, stack, blocks, ip, last, level⟩, recovered⟩ := a
  obtain rfl := empty
  rfl

theorem drain_of_leaves {block : BlockVM.Block} {rest : List BlockVM.Block} (standing : a.frame.blocks = block :: rest)
    (leaves : block.stays signal = false) :
    Exec.drain signal.why (a.embed callers returned) =
      Exec.unwind block.embed (rest.map BlockVM.Block.embed) signal.why (a.embed callers returned) := by
  obtain ⟨world, ⟨code, globals, locals, stack, blocks, ip, last, level⟩, recovered⟩ := a
  obtain rfl := standing
  cases block with
  | loop exit height =>
      cases signal with
      | «continue» target => cases leaves
      | _ => rfl
  | setupExcept handler height | «finally» handler height | exceptHandler height => cases signal <;> rfl

/-- A signal takes the same turn on the engine as on the machine. -/
theorem drain_embed {passage : Passage} (numbered : Numbered (passage.active.frame :: passage.callers))
    (regular : passage.Regular) :
    ∃ later, Matches stale passage.signal (Exec.drain passage.signal.why
      ((passage.active.under passage.signal).embed passage.callers (passage.signal.returned stale)))
      passage.step later := by
  obtain ⟨signal, a, callers⟩ := passage
  obtain ⟨encodable, waiting⟩ := regular
  have frame : (a.under signal).frame = a.frame := Active.under_frame
  cases standing : a.frame.blocks with
  | nil =>
      rw [drain_of_nil signal.why (frame ▸ standing), Passage.step, standing]
      exact leave_embed numbered
  | cons block rest =>
      have stepped : Passage.step ⟨signal, a, callers⟩ =
          encounterPhase callers (a.meet callers block rest signal) := by
        rw [Passage.step, standing]
        dsimp only
        cases a.meet callers block rest signal <;> rfl
      rw [stepped]
      cases stays : block.stays signal with
      | false =>
          rw [drain_of_leaves (frame ▸ standing) stays]
          exact unwind_embed rest numbered.1 waiting encodable stays
      | true =>
          obtain ⟨world, ⟨code, globals, locals, stack, blocks, ip, last, level⟩, recovered⟩ := a
          obtain rfl := standing
          cases block with
          | setupExcept handler height | «finally» handler height | exceptHandler height => cases stays
          | loop exit height =>
              cases signal with
              | «continue» target =>
                  exact ⟨stale, .resumed (run_resumed (.onData (BlockVM.Exec.conforms_jump target).keeps) numbered.1 rfl)
                    (.inr rfl)⟩
              | «return» value | «break» | «raise» raised => cases stays

end Engine

end BlockVM
