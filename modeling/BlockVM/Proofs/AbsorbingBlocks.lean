import BlockVM.Proofs.RunSteps

namespace BlockVM

/-! Where a signal comes to rest in its frame, said without taking blocks off one by one: the topmost
block that absorbs it decides, and what the frame is left with depends on that block alone. -/

inductive Landing where
  /-- The frame goes on. -/
  | absorbed (frame : Frame)
  /-- The signal leaves the frame. -/
  | escaped (signal : Signal) (frame : Frame)

/-- The data stack once blocks have been taken off, the lowest of them last. -/
def remains (taken : List Block) (stack : List Value) : List Value :=
  match taken.getLast? with
  | some lowest => stack.rtake lowest.depth
  | none => stack

/-- Blocks can be taken off one after the other without anything missing. -/
def Yields : List Block → List Value → Prop
  | [], _ => True
  | block :: rest, stack => block.Intact stack ∧ Yields rest (stack.rtake block.depth)

namespace Frame

/-- The frame in which `block` resumes a signal; `above` have been taken off it and `rest` are the
blocks below it. -/
def resume (above : List Block) (block : Block) (rest : List Block) (signal : Signal) (frame : Frame) :
    Frame :=
  match block, signal with
  | .loop .., .continue target =>
      { frame with blocks := block :: rest, stack := remains above frame.stack, ip := target }
  | .loop exit depth, .break =>
      { frame with blocks := rest, stack := frame.stack.rtake depth, ip := exit }
  | .finally handler depth, .return value =>
      { frame with
        blocks := rest
        stack := .signal .returning :: value :: frame.stack.rtake depth
        ip := handler }
  | .finally handler depth, .break =>
      { frame with
        blocks := rest
        stack := .signal .breaking :: frame.stack.rtake depth
        ip := handler }
  | .finally handler depth, .continue target =>
      { frame with
        blocks := rest
        stack := .signal (.continuing target) :: .int (Int64.ofNat target) :: frame.stack.rtake depth
        ip := handler }
  | .setupExcept handler depth, .raise raised | .finally handler depth, .raise raised =>
      { frame with
        blocks := .exceptHandler depth :: rest
        stack := raised.toValues ++ (raised.toValues ++ frame.stack.rtake depth)
        ip := handler }
  | _, _ => frame

/-- Where a signal comes to rest: at the topmost block that absorbs it, or outside the frame. -/
def landing (signal : Signal) (frame : Frame) : Landing :=
  match frame.blocks.dropWhile (!·.absorbs signal) with
  | [] => .escaped signal { frame with blocks := [], stack := remains frame.blocks frame.stack }
  | block :: rest =>
      .absorbed (frame.resume (frame.blocks.takeWhile (!·.absorbs signal)) block rest signal)

end Frame

def Encounter.landing : Encounter → Landing
  | .absorbed active => .absorbed active.frame
  | .passed signal active => .escaped signal active.frame

namespace Signal

/-- The blocks that a signal takes off: all above the one that absorbs it, and that one too unless
it stays. -/
def takes (signal : Signal) (blocks : List Block) : List Block :=
  blocks.takeWhile (!·.absorbs signal) ++
    ((blocks.dropWhile (!·.absorbs signal)).take 1).filter (!·.stays signal)

theorem takes_of_absorbs {signal : Signal} {block : Block} (rest : List Block)
    (absorbs : block.absorbs signal = true) (leaves : block.stays signal = false) :
    signal.takes (block :: rest) = [block] := by
  simp [takes, absorbs, leaves]

theorem takes_of_passes {signal : Signal} {block : Block} (rest : List Block)
    (passes : block.absorbs signal = false) : signal.takes (block :: rest) = block :: signal.takes rest := by
  simp [takes, passes]

theorem Carried.takes {signal carried : Signal} (reached : Carried signal carried)
    (blocks : List Block) : carried.takes blocks = signal.takes blocks := by
  simp only [Signal.takes, reached.absorbs, reached.stays]

end Signal

theorem Block.Intact.depth_le {block : Block} {stack : List Value} (intact : block.Intact stack) :
    block.depth ≤ stack.length := by
  cases block with
  | exceptHandler depth => exact Nat.le_trans (Nat.le_add_right depth 3) intact.1
  | loop exit depth | setupExcept handler depth | «finally» handler depth => exact intact

theorem Yields.depth_le {blocks : List Block} {stack : List Value} (yields : Yields blocks stack) :
    ∀ block ∈ blocks, block.depth ≤ stack.length := by
  induction blocks generalizing stack with
  | nil => simp
  | cons first rest ih =>
      obtain ⟨intact, yields⟩ := yields
      have enough := intact.depth_le
      intro block member
      rcases List.mem_cons.mp member with rfl | member
      · exact enough
      · have under := ih yields block member
        rw [length_rtake enough] at under
        exact Nat.le_trans under enough

theorem Yields.intact {block : Block} {rest : List Block} {signal : Signal} {stack : List Value}
    (yields : Yields (signal.takes (block :: rest)) stack) (leaves : block.stays signal = false) :
    block.Intact stack := by
  cases absorbs : block.absorbs signal with
  | true =>
      rw [Signal.takes_of_absorbs rest absorbs leaves] at yields
      exact yields.1
  | false =>
      rw [Signal.takes_of_passes rest absorbs] at yields
      exact yields.1

theorem remains_cons {block : Block} {taken : List Block} {stack : List Value}
    (enough : block.depth ≤ stack.length) (under : ∀ other ∈ taken, other.depth ≤ block.depth) :
    remains (block :: taken) stack = remains taken (stack.rtake block.depth) := by
  cases lowest : taken.getLast? with
  | none =>
      rw [List.getLast?_eq_none_iff] at lowest
      subst lowest
      rfl
  | some last =>
      simp only [remains, List.getLast?_cons, lowest, Option.getD_some]
      exact (rtake_rtake (under last (List.mem_of_getLast? lowest)) enough).symm

namespace Frame

variable {block : Block} {rest : List Block} {signal : Signal} {frame : Frame}

theorem absorbed_lowered (above : List Block) (absorbs : block.absorbs signal = true)
    (leaves : block.stays signal = false) (enough : block.depth ≤ frame.stack.length) :
    (frame.lowered block rest).absorbed block signal = frame.resume above block rest signal := by
  have handled := length_rtake enough
  cases block with
  | exceptHandler depth => cases absorbs
  | loop exit depth =>
      cases signal with
      | «break» => rfl
      | «continue» target => cases leaves
      | «return» value | «raise» raised => cases absorbs
  | setupExcept handler depth =>
      cases signal with
      | «raise» raised =>
          rw [Block.depth] at handled
          simp only [absorbed, resume, lowered, Block.depth, handled]
      | «return» value | «break» | «continue» target => cases absorbs
  | «finally» handler depth =>
      cases signal with
      | «raise» raised =>
          rw [Block.depth] at handled
          simp only [absorbed, resume, lowered, Block.depth, handled]
      | «return» value | «break» | «continue» target => rfl

theorem resume_cons {absorber : Block} {above below : List Block} (absorbs : absorber.absorbs signal = true)
    (enough : block.depth ≤ frame.stack.length) (under : ∀ other ∈ above, other.depth ≤ block.depth)
    (lower : absorber.stays signal = false → absorber.depth ≤ block.depth) :
    frame.resume (block :: above) absorber below signal =
      (frame.lowered block rest).resume above absorber below signal := by
  have kept (leaves : absorber.stays signal = false) :
      (frame.stack.rtake block.depth).rtake absorber.depth = frame.stack.rtake absorber.depth :=
    rtake_rtake (lower leaves) enough
  cases absorber with
  | exceptHandler depth => cases absorbs
  | loop exit depth =>
      cases signal with
      | «break» =>
          have same : (frame.stack.rtake block.depth).rtake depth = frame.stack.rtake depth := kept rfl
          simp only [resume, lowered, same]
      | «continue» target => simp only [resume, lowered, remains_cons enough under]
      | «return» value | «raise» raised => cases absorbs
  | setupExcept handler depth =>
      cases signal with
      | «raise» raised =>
          have same : (frame.stack.rtake block.depth).rtake depth = frame.stack.rtake depth := kept rfl
          simp only [resume, lowered, same]
      | «break» | «continue» target | «return» value => cases absorbs
  | «finally» handler depth =>
      have same : (frame.stack.rtake block.depth).rtake depth = frame.stack.rtake depth :=
        kept (by cases signal <;> rfl)
      cases signal <;> simp only [resume, lowered, same]

theorem landing_of_absorbs (blocks : frame.blocks = block :: rest) (absorbs : block.absorbs signal = true) :
    frame.landing signal = .absorbed (frame.resume [] block rest signal) := by
  simp only [landing, blocks, List.dropWhile_cons, List.takeWhile_cons, absorbs, Bool.not_true,
    Bool.false_eq_true, if_false]

/-- A block that lets a signal pass has no part in where the signal comes to rest. -/
theorem landing_of_passes (blocks : frame.blocks = block :: rest) (passes : block.absorbs signal = false)
    (intact : block.Intact frame.stack)
    (yields : Yields (signal.takes rest) (frame.stack.rtake block.depth)) :
    frame.landing signal = (frame.lowered block rest).landing signal := by
  have enough := intact.depth_le
  have under := yields.depth_le
  rw [length_rtake enough] at under
  have joined : rest.takeWhile (!·.absorbs signal) ++ rest.dropWhile (!·.absorbs signal) = rest :=
    List.takeWhile_append_dropWhile
  simp only [landing, lowered, blocks, List.dropWhile_cons, List.takeWhile_cons, passes, Bool.not_false,
    if_true]
  cases lower : rest.dropWhile (!·.absorbs signal) with
  | nil =>
      rw [lower, List.append_nil] at joined
      simp only [Signal.takes, joined, lower, List.take_nil, List.filter_nil, List.append_nil] at under
      simp only [remains_cons enough under]
  | cons absorber below =>
      simp only [Signal.takes, lower, List.mem_append] at under
      have absorbs : absorber.absorbs signal = true := by
        have first := List.head_dropWhile_not (fun block : Block => !block.absorbs signal) (l := rest)
          (by simp [lower])
        simpa [lower] using first
      refine congrArg Landing.absorbed (resume_cons absorbs enough ?_ ?_)
      · exact fun other member => under other (.inl member)
      · exact fun leaves => under absorber (.inr (by simp [leaves]))

end Frame

namespace Active

/-- A block that is not a running handler's absorbs a signal as it came, and touches the world only to note
it. -/
theorem meet_resume (callers : List Frame) {block : Block} (rest : List Block) {signal : Signal} (a : Active)
    (absorbs : block.absorbs signal = true) (leaves : block.stays signal = false) (encodable : signal.Encodable)
    (enough : block.depth ≤ a.frame.stack.length) :
    ∃ after events, a.meet callers block rest signal = .absorbed after ∧
      after = { a with world := { a.world with events }, frame := a.frame.resume [] block rest signal } := by
  rw [← Frame.absorbed_lowered [] absorbs leaves enough, meet_of_leaves callers rest a leaves]
  cases block with
  | exceptHandler depth => cases absorbs
  | loop exit depth =>
      rw [release_plain (by simp [Block.kind]), if_pos enough]
      cases signal with
      | «break» => exact ⟨_, _, rfl, rfl⟩
      | «continue» target => cases leaves
      | «return» value | «raise» raised => cases absorbs
  | setupExcept handler depth =>
      rw [release_plain (by simp [Block.kind]), if_pos enough]
      cases signal with
      | «return» value | «break» | «continue» target => cases absorbs
      | «raise» raised =>
          simp only [absorb, show raised.kind.isFatal = false by simpa [Block.absorbs] using absorbs]
          exact ⟨_, _, rfl, rfl⟩
  | «finally» handler depth =>
      rw [release_plain (by simp [Block.kind]), if_pos enough]
      cases signal with
      | «return» value | «break» => exact ⟨_, _, rfl, rfl⟩
      | «continue» target =>
          simp only [absorb, enterContinue_of_le _ encodable]
          exact ⟨_, _, rfl, rfl⟩
      | «raise» raised =>
          simp only [absorb, show raised.kind.isFatal = false by simpa [Block.absorbs] using absorbs]
          exact ⟨_, _, rfl, rfl⟩

/-- Taking the blocks off one by one leads to the landing of the signal. -/
theorem drain_landing (callers : List Frame) {blocks : List Block} {signal : Signal} {a : Active}
    (standing : a.frame.blocks = blocks) (encodable : signal.Encodable)
    (yields : Yields (signal.takes blocks) a.frame.stack) :
    ∃ carried, signal.Carried carried ∧
      (a.drain callers blocks signal).landing = a.frame.landing carried := by
  induction blocks generalizing signal a with
  | nil =>
      refine ⟨signal, .same signal, ?_⟩
      simp only [drain, Encounter.landing, Frame.landing, standing, List.dropWhile_nil, remains,
        List.getLast?_nil]
      rw [← standing]
  | cons block rest ih =>
      -- The top block absorbs the signal, or it drops out of both sides.
      have meets := a.meet_meets callers block rest signal
      rw [drain]
      generalize a.meet callers block rest signal = met at meets
      cases meets with
      | stayed continues stays =>
          subst continues
          refine ⟨_, .same _, ?_⟩
          rw [Frame.landing_of_absorbs standing (Block.absorbs_of_stays stays)]
          cases block with
          | loop exit depth => rfl
          | setupExcept handler depth | «finally» handler depth | exceptHandler depth => cases stays
      | damaged leaves damaged => exact absurd (yields.intact leaves) damaged
      | tooFar _ continues far =>
          subst continues
          exact absurd encodable (Nat.not_le.mpr far)
      | absorbed leaves intact carried absorbs resumed =>
          refine ⟨_, carried, ?_⟩
          have absorbs := (carried.absorbs block).trans absorbs
          rw [Frame.landing_of_absorbs standing absorbs, Encounter.landing, resumed,
            Frame.absorbed_lowered [] absorbs ((carried.stays block).trans leaves) intact.depth_le]
      | passed intact carried passes lowered =>
          rw [Signal.takes_of_passes rest passes] at yields
          have yields := yields.2
          obtain ⟨arrived, further, landed⟩ := ih (by rw [lowered]; rfl) (carried.encodable encodable)
            (by rw [lowered, carried.takes]; exact yields)
          have reached := carried.trans further
          refine ⟨arrived, reached, landed.trans ?_⟩
          rw [lowered]
          refine (Frame.landing_of_passes standing ?_ intact ?_).symm
          · exact (reached.absorbs block).trans passes
          · rw [reached.takes]
            exact yields

end Active

/-- In any frame and whatever blocks it has, a signal of a run comes to rest where its landing says,
as long as none of the blocks it takes off is damaged. -/
theorem drain_eq_landing (code : Code Value) (environment : Environment) (arguments : List Value)
    (world : World) :
    (∀ passage, (Phase.resting (world.launch code environment arguments)).Reaches (.passing passage) →
      passage.signal.Encodable) ∧
    ∀ (callers : List Frame) (signal : Signal) (a : Active), signal.Encodable →
      Yields (signal.takes a.frame.blocks) a.frame.stack →
      ∃ carried, signal.Carried carried ∧
        (a.drain callers a.frame.blocks signal).landing = a.frame.landing carried :=
  ⟨fun _ reached => reached.encodable,
    fun callers _ _ encodable yields => Active.drain_landing callers rfl encodable yields⟩

/-- A `return` out of a handler, out of a loop, into the `finally` body around them. -/
theorem drain_eq_landing_return :
    let frame : Frame :=
      { code := default, globals := default, locals := default, depth := 1
        blocks := [.exceptHandler 1, .loop 7 1, .finally 20 1]
        stack := [.int 5, .exceptionKind .valueError, .nothing, .nothing, .int 9] }
    (Active.drain [] frame.blocks (.return (.int 3)) ⟨default, frame, none⟩).landing =
      .absorbed { frame with blocks := [], stack := [.signal .returning, .int 3, .int 9], ip := 20 } := by
  intro frame
  have yields : Yields ((Signal.return (.int 3)).takes frame.blocks) frame.stack :=
    ⟨⟨by decide, _, _, _, rfl, ⟨_, rfl⟩, .inl rfl, .inl rfl⟩, Nat.le_refl 1, Nat.le_refl 1, trivial⟩
  obtain ⟨carried, reached, landed⟩ :=
    (drain_eq_landing default default [] default).2 [] (.return (.int 3)) ⟨default, frame, none⟩ trivial yields
  cases reached
  exact landed

end BlockVM
