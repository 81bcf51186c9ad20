import Mathlib.Order.Defs.Unbundled
import BlockVM.Proofs.Signals

namespace BlockVM

/-! Where a frame is anchored: its code, its depth and its namespaces. Neither a signal nor, as is shown
later, an instruction moves a frame from there, and no namespace changes but the frame's own. -/

namespace Heap

@[simp] theorem updateSpace_size (ref : NamespaceRef) (change : Namespace → Namespace) (heap : Heap) :
    (heap.updateSpace ref change).namespaces.size = heap.namespaces.size := by
  simp [updateSpace]

theorem space_of_push {ref : NamespaceRef} {space : Namespace} {before after : Heap}
    (pushed : after.namespaces = before.namespaces.push space) (known : ref.index < before.namespaces.size) :
    after.space ref = before.space ref := by
  simp only [Heap.space, pushed, Array.getD_eq_getD_getElem?, Array.getElem?_push_lt known,
    Array.getElem?_eq_getElem known]

/-- No namespace disappears, and only those that are `touched` change. -/
structure Spares (touched : NamespaceRef → Prop) (before after : Heap) : Prop where
  grows : before.namespaces.size ≤ after.namespaces.size
  kept : ∀ ref : NamespaceRef, ref.index < before.namespaces.size → ¬ touched ref →
    after.space ref = before.space ref

namespace Spares

variable {touched : NamespaceRef → Prop} {first second third : Heap}

theorem of_namespaces (same : second.namespaces = first.namespaces) : Spares touched first second := by
  refine ⟨by rw [same], fun ref _ _ => ?_⟩
  simp only [space, same]

theorem trans (earlier : Spares touched first second) (later : Spares touched second third) :
    Spares touched first third := by
  refine ⟨earlier.grows.trans later.grows, fun ref known untouched => ?_⟩
  rw [later.kept ref (Nat.lt_of_lt_of_le known earlier.grows) untouched, earlier.kept ref known untouched]

theorem updateSpace {ref : NamespaceRef} (heap : Heap) (change : Namespace → Namespace) (own : touched ref) :
    Spares touched heap (heap.updateSpace ref change) := by
  refine ⟨by simp, fun other known untouched => ?_⟩
  have elsewhere : ref.index ≠ other.index := by
    intro same
    obtain ⟨index⟩ := ref
    obtain ⟨otherIndex⟩ := other
    cases same
    exact untouched own
  simp only [Heap.space, Heap.updateSpace, Array.getD_eq_getD_getElem?, Array.getElem?_modify, if_neg elsewhere]

theorem newNamespace (heap : Heap) (space : Namespace) :
    Spares touched heap (heap.newNamespace space).2 := by
  exact ⟨by simp [Heap.newNamespace], fun ref known _ => space_of_push rfl known⟩

end Spares

end Heap

/-- The namespaces in which the code of a frame binds names. -/
def Frame.Binds (frame : Frame) (ref : NamespaceRef) : Prop :=
  ref = frame.locals ∨ ref = frame.globals

namespace Active

structure Anchored (before after : Active) : Prop where
  frame : ∃ stack blocks ip lastOffset, after.frame = { before.frame with stack, blocks, ip, lastOffset }
  spaces : before.world.heap.Spares before.frame.Binds after.world.heap

namespace Anchored

variable {first second third : Active}

theorem globals (anchored : Anchored first second) : second.frame.globals = first.frame.globals := by
  obtain ⟨_, _, _, _, same⟩ := anchored.frame
  rw [same]

theorem locals (anchored : Anchored first second) : second.frame.locals = first.frame.locals := by
  obtain ⟨_, _, _, _, same⟩ := anchored.frame
  rw [same]

theorem depth (anchored : Anchored first second) : second.frame.depth = first.frame.depth := by
  obtain ⟨_, _, _, _, same⟩ := anchored.frame
  rw [same]

theorem binds (anchored : Anchored first second) : second.frame.Binds = first.frame.Binds := by
  funext ref
  rw [Frame.Binds, anchored.locals, anchored.globals, Frame.Binds]

theorem of_namespaces (frame : ∃ stack blocks ip, second.frame = { first.frame with stack, blocks, ip })
    (same : second.world.heap.namespaces = first.world.heap.namespaces) : Anchored first second := by
  obtain ⟨stack, blocks, ip, kept⟩ := frame
  exact ⟨⟨stack, blocks, ip, first.frame.lastOffset, kept⟩, .of_namespaces same⟩

theorem of_frame (frame : second.frame = first.frame)
    (same : second.world.heap.namespaces = first.world.heap.namespaces) : Anchored first second :=
  of_namespaces ⟨first.frame.stack, first.frame.blocks, first.frame.ip, frame⟩ same

instance : IsPreorder Active Anchored where
  refl _ := of_frame rfl rfl
  trans first second third earlier later := by
    obtain ⟨stack, blocks, ip, lastOffset, same⟩ := earlier.frame
    obtain ⟨stackLater, blocksLater, ipLater, lastLater, sameLater⟩ := later.frame
    refine ⟨⟨stackLater, blocksLater, ipLater, lastLater, by rw [sameLater, same]⟩, ?_⟩
    exact earlier.spaces.trans (earlier.binds ▸ later.spaces)

theorem refl (a : Active) : Anchored a a :=
  refl_of Anchored a

theorem trans (earlier : Anchored first second) (later : Anchored second third) : Anchored first third :=
  trans_of Anchored earlier later

end Anchored

end Active

theorem Raised.ofValues_namespaces {kind value trace : Value} {heap : Heap} {result : Raised × Heap}
    (built : Raised.ofValues kind value trace heap = .ok result) :
    result.2.namespaces = heap.namespaces := by
  obtain ⟨⟨known, rfl⟩, value, trace⟩ := saved_of_ofValues built
  rcases value with rfl | ⟨object, rfl⟩ <;> rcases trace with rfl | ⟨frames, rfl⟩ <;> cases built <;> rfl

theorem handled?_namespaces {heap : Heap} {frames : List Frame} {found : Raised × Heap}
    (handled : handled? heap frames = some found) : found.2.namespaces = heap.namespaces := by
  induction frames with
  | nil => cases handled
  | cons frame callers ih =>
      unfold handled? at handled
      split at handled
      · exact ih handled
      · split at handled
        · cases handled
        · split at handled
          · rename_i kind value trace rest _
            cases built : Raised.ofValues kind value trace heap with
            | error fault => rw [built] at handled; cases handled
            | ok result =>
                rw [built] at handled
                cases handled
                exact Raised.ofValues_namespaces built
          · cases handled

namespace Active

theorem announce_anchored (raised : Raised) (a : Active) : a.Anchored (a.announce raised) :=
  .of_frame rfl rfl

theorem throw_namespaces (callers : List Frame) (exception : ExceptionObject) (a : Active) :
    (a.throw callers exception).2.world.heap.namespaces = a.world.heap.namespaces := by
  unfold throw
  split
  rename_i chosen after chose
  split at chose
  · cases chose
    rfl
  · rename_i found heap handled
    have same : heap.namespaces = a.world.heap.namespaces := handled?_namespaces handled
    split at chose <;> cases chose <;> exact same

theorem raise_namespaces (callers : List Frame) (fault : Fault) (a : Active) :
    (a.raise callers fault).2.world.heap.namespaces = a.world.heap.namespaces :=
  throw_namespaces callers _ _

theorem throw_anchored (callers : List Frame) (exception : ExceptionObject) (a : Active) :
    a.Anchored (a.throw callers exception).2 :=
  .of_frame (throw_spec callers exception a).1 (throw_namespaces callers exception a)

theorem raise_anchored (callers : List Frame) (fault : Fault) (a : Active) :
    a.Anchored (a.raise callers fault).2 :=
  .of_frame (raise_frame callers fault a) (raise_namespaces callers fault a)

theorem release_anchored (block : Block) (a : Active) : a.Anchored (a.release block).2 := by
  cases block with
  | exceptHandler depth =>
      by_cases enough : depth + 3 ≤ a.frame.stack.length
      · obtain ⟨kind, value, trace, slots⟩ := rtake_handler enough
        rw [release_handler enough slots]
        split
        · rename_i built
          exact .of_namespaces ⟨_, _, _, rfl⟩ (Raised.ofValues_namespaces built)
        · exact .of_namespaces ⟨_, _, _, rfl⟩ rfl
      · simp only [release, Frame.trim?_of_lt (Nat.lt_of_not_le enough)]
        exact .refl a
  | loop exit depth | setupExcept handler depth | «finally» handler depth =>
      rw [release_plain (by simp [Block.kind])]
      split
      · exact .of_namespaces ⟨_, _, _, rfl⟩ rfl
      · exact .refl a

theorem restore_anchored (saved : Raised) (signal : Signal) (a : Active) :
    a.Anchored (a.restore saved signal).2 := by
  unfold restore
  split
  · split <;> exact .of_frame rfl rfl
  · exact .of_frame rfl rfl

theorem absorb_anchored {block : Block} {signal : Signal} {a after : Active}
    (absorbed : a.absorb block signal = some (.ok after)) : a.Anchored after := by
  unfold absorb at absorbed
  split at absorbed
  · cases absorbed
    exact .of_namespaces ⟨_, _, _, rfl⟩ rfl
  · split at absorbed
    · cases absorbed
    · cases absorbed
      exact .of_namespaces ⟨_, _, _, rfl⟩ rfl
  · split at absorbed
    · cases absorbed
    · cases absorbed
      exact .of_namespaces ⟨_, _, _, rfl⟩ rfl
  · cases absorbed
    exact .of_namespaces ⟨_, _, _, rfl⟩ rfl
  · cases absorbed
    exact .of_namespaces ⟨_, _, _, rfl⟩ rfl
  · unfold enterContinue at absorbed
    split at absorbed
    · cases absorbed
      exact .of_namespaces ⟨_, _, _, rfl⟩ rfl
    · cases absorbed
  · cases absorbed

end Active

/-- The running frame after an encounter, with the world around it. -/
def Encounter.active : Encounter → Active
  | .absorbed active => active
  | .passed _ active => active

section

variable {relation : Active → Active → Prop} [IsPreorder Active relation] {callers : List Frame} {block : Block}
  (absorbed : ∀ {signal a after}, Active.absorb block signal a = some (.ok after) → relation a after)
  (raised : ∀ fault a, relation a (Active.raise callers fault a).2)

include absorbed raised

theorem Active.offer_relates (onward : Signal) (left : Active) :
    relation left (match left.absorb block onward with
      | some (.ok after) => Encounter.absorbed after
      | some (.error fault) => left.supplant callers fault
      | none => .passed onward left).active := by
  split
  · rename_i after accepted
    exact absorbed accepted
  · rename_i fault _
    exact raised fault left
  · exact refl_of relation left

/-- Once a signal has taken a block off, what follows restores an exception, resumes the frame or raises. -/
theorem Active.meet_relates {rest : List Block} {signal : Signal} {a off : Active}
    {released : Except Fault (Option Raised)} (leaves : block.stays signal = false)
    (run : { a with frame := { a.frame with blocks := rest } }.release block = (released, off))
    (restored : ∀ saved a, relation a (Active.restore saved signal a).2) :
    relation (off.emit (.blockPop block.kind rest.length)) (a.meet callers block rest signal).active := by
  rw [meet_of_leaves callers rest a leaves, run]
  cases released with
  | error fault => exact raised fault _
  | ok saved =>
      cases saved with
      | none => exact offer_relates absorbed raised signal _
      | some saved => exact trans_of relation (restored saved _) (offer_relates absorbed raised _ _)

end

theorem Active.meet_anchored (callers : List Frame) (block : Block) (rest : List Block) (signal : Signal)
    (a : Active) : a.Anchored (a.meet callers block rest signal).active := by
  cases stays : block.stays signal with
  | true =>
      have meets := a.meet_meets callers block rest signal
      generalize a.meet callers block rest signal = met at meets
      cases meets with
      | stayed => exact .of_namespaces ⟨_, _, _, rfl⟩ rfl
      | damaged leaves | tooFar leaves | absorbed leaves => rw [stays] at leaves; cases leaves
      | passed _ _ passes => rw [Block.absorbs_of_stays stays] at passes; cases passes
  | false =>
      let taken : Active := { a with frame := { a.frame with blocks := rest } }
      have took : a.Anchored taken := .of_namespaces ⟨_, _, _, rfl⟩ rfl
      have released := took.trans (release_anchored block taken)
      rcases run : taken.release block with ⟨outcome, off⟩
      rw [run] at released
      have noted : a.Anchored (off.emit (.blockPop block.kind rest.length)) := released.trans (.of_frame rfl rfl)
      exact noted.trans (meet_relates absorb_anchored (raise_anchored callers) stays run
        fun saved left => restore_anchored saved signal left)

end BlockVM
