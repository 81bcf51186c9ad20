import BlockVM.Proofs.Observers

namespace BlockVM

/-! A log with a limit. It writes a line for each event that has one, says so when it has written enough
instructions, and is silent from then on. The limit is asked after an instruction is written: a limit of
nought lets one instruction through. -/

/-- The instructions among the events. -/
def Event.executed (events : List Event) : List Event :=
  events.filter isInstruction

namespace Log

open Event (executed)

/-- The line with which a log stops. -/
def notice (limit : Nat) : String :=
  s!"[trace stopped after {limit} instructions]"

/-- How many instructions are written before a log stops. -/
def stretch (limit : Nat) : Nat :=
  max limit 1

def isInstructionLine (line : String) : Bool :=
  match line.toList with
  | '[' :: second :: _ => second == ' ' || second.isDigit
  | _ => false

theorem isInstructionLine_of_blank {line : String} (starts : line.toList.head? = some ' ') :
    isInstructionLine line = false := by
  cases spelled : line.toList with
  | nil => simp [isInstructionLine, spelled]
  | cons first rest =>
      have blank : first = ' ' := by simpa [spelled] using starts
      simp [isInstructionLine, spelled, blank]

theorem isInstructionLine_of_bracket {line : String} {second : Char}
    (spelled : ∃ rest, line.toList = '[' :: second :: rest) :
    isInstructionLine line = (second == ' ' || second.isDigit) := by
  obtain ⟨rest, spelled⟩ := spelled
  simp only [isInstructionLine, spelled]

theorem isInstructionLine_notice (limit : Nat) : isInstructionLine (notice limit) = false := by
  have spelled : ∃ rest, (notice limit).toList = '[' :: 't' :: rest := by
    change ∃ rest, ("[trace stopped after " ++ limit.repr ++ " instructions]").toList = _
    simp
  rw [isInstructionLine_of_bracket spelled]
  decide

theorem toList_pushn (text : String) (c : Char) (count : Nat) :
    (text.pushn c count).toList = text.toList ++ List.replicate count c := by
  rw [String.pushn_eq_repeat_push]
  induction count with
  | zero => simp [Nat.repeat]
  | succ count ih => rw [Nat.repeat, String.toList_push, ih, List.replicate_succ', List.append_assoc]

/-- An aligned number starts with a blank or a digit. -/
theorem alignRight_starts (width number : Nat) :
    ∃ first rest, (Text.alignRight width (toString number)).toList = first :: rest ∧
      (first == ' ' || first.isDigit) = true := by
  have spelled : (Text.alignRight width (toString number)).toList =
      List.replicate (width - (toString number).length) ' ' ++ Nat.toDigits 10 number := by
    simp [Text.alignRight, toList_pushn]
  cases digits : Nat.toDigits 10 number with
  | nil => exact absurd digits Nat.toDigits_ne_nil
  | cons digit digits' =>
      have isDigit : digit.isDigit = true :=
        Nat.isDigit_of_mem_toDigits (by decide) (by decide) (digits ▸ List.mem_cons_self)
      rw [spelled, digits]
      cases width - (toString number).length with
      | zero => exact ⟨digit, digits', rfl, by simp [isDigit]⟩
      | succ blanks => exact ⟨' ', List.replicate blanks ' ' ++ digit :: digits', by rw [List.replicate_succ]; rfl, rfl⟩

theorem isInstructionLine_line? {event : Event} {line : String} (written : line? event = some line) :
    isInstructionLine line = event.isInstruction := by
  cases event with
  | instruction offset opcode stackDepth frameDepth =>
      obtain ⟨first, rest, aligned, plain⟩ := alignRight_starts 5 offset
      cases written
      refine (isInstructionLine_of_bracket ?_).trans plain
      simp only [String.toList_append, aligned, List.append_assoc]
      exact ⟨_, rfl⟩
  | makeFunction defaults => cases written
  | call code depth | «return» depth | blockPush kind depth | blockPop kind depth | exception kind depth =>
      cases written
      exact isInstructionLine_of_blank (by simp [toString])

theorem line?_isSome {event : Event} (instructs : event.isInstruction) : (line? event).isSome := by
  cases event with
  | instruction => rfl
  | _ => cases instructs

theorem filter_isInstructionLine (events : List Event) :
    (events.filterMap line?).filter isInstructionLine = (executed events).filterMap line? := by
  unfold executed
  induction events with
  | nil => rfl
  | cons event events ih =>
      cases written : line? event with
      | none =>
          have silent : ¬ event.isInstruction := fun instructs => by simpa [written] using line?_isSome instructs
          rw [List.filterMap_cons_none written, ih, List.filter_cons_of_neg silent]
      | some line =>
          rw [List.filterMap_cons_some written, List.filter_cons, isInstructionLine_line? written, ih,
            List.filter_cons]
          split
          · rw [List.filterMap_cons_some written]
          · rfl

variable {limit : Nat} {events : List Event} {log : Log}

/-- A log after `events`. It is awake as long as too few instructions were written; it has been silent since
the instruction that made them enough. -/
inductive Follows (limit : Nat) (events : List Event) : Log → Prop where
  | awake (few : (executed events).length < stretch limit) :
      Follows limit events
        { limit := some limit, instructions := (executed events).length, stopped := false
          lines := (events.filterMap line?).toArray }
  | silent {heard later : List Event} {last : Event} (whole : events = heard ++ last :: later)
      (instructs : last.isInstruction) (enough : (executed heard).length + 1 = stretch limit) :
      Follows limit events
        { limit := some limit, instructions := stretch limit, stopped := true
          lines := ((heard ++ [last]).filterMap line? ++ [notice limit]).toArray }

theorem observe_of_silent (stopped : log.stopped = true) (event : Event) : log.observe event = log := by
  simp [observe, stopped]

theorem observe_instruction {event : Event} (instructs : event.isInstruction) (awake : log.stopped = false) :
    log.observe event = (log.write event).countInstruction := by
  cases event with
  | instruction offset opcode stackDepth frameDepth => simp [observe, awake]
  | _ => cases instructs

theorem observe_other {event : Event} (other : ¬ event.isInstruction) (awake : log.stopped = false) :
    log.observe event = log.write event := by
  cases event with
  | instruction => exact absurd rfl other
  | _ => simp [observe, awake]

theorem write_eq (log : Log) (event : Event) :
    log.write event = { log with lines := log.lines ++ ([event].filterMap line?).toArray } := by
  unfold write
  cases written : line? event <;> simp [written]

theorem countInstruction_of_reached (limited : log.limit = some limit) (reached : limit ≤ log.instructions + 1) :
    log.countInstruction =
      { log with instructions := log.instructions + 1, stopped := true, lines := log.lines.push (notice limit) } := by
  simp only [countInstruction, limited, if_pos reached]
  rfl

theorem countInstruction_of_short (limited : log.limit = some limit) (short : log.instructions + 1 < limit) :
    log.countInstruction = { log with instructions := log.instructions + 1 } := by
  simp only [countInstruction, limited, if_neg (Nat.not_le.mpr short)]

theorem Follows.step (follows : Follows limit events log) (event : Event) :
    Follows limit (events ++ [event]) (log.observe event) := by
  cases follows with
  | awake few =>
      by_cases instructs : event.isInstruction
      · have counted : (executed (events ++ [event])).length = (executed events).length + 1 := by
          simp [executed, instructs]
        rw [observe_instruction instructs rfl, write_eq]
        by_cases reached : limit ≤ (executed events).length + 1
        · have enough : (executed events).length + 1 = stretch limit := by
            unfold stretch at few ⊢
            omega
          have silent : Follows limit (events ++ [event]) _ := .silent rfl instructs enough
          rw [countInstruction_of_reached rfl reached]
          simpa [enough] using silent
        · have awake : Follows limit (events ++ [event]) _ := .awake (by unfold stretch; omega)
          rw [countInstruction_of_short rfl (Nat.not_le.mp reached)]
          simpa [counted] using awake
      · have counted : executed (events ++ [event]) = executed events := by simp [executed, instructs]
        have awake : Follows limit (events ++ [event]) _ := .awake (counted ▸ few)
        rw [observe_other instructs rfl, write_eq]
        simpa [counted] using awake
  | silent whole instructs enough =>
      rw [observe_of_silent rfl]
      exact .silent (by rw [whole, List.append_assoc, List.cons_append]) instructs enough

theorem follows_foldl (limit : Nat) (events : List Event) :
    Follows limit events (events.foldl observe { limit := some limit }) := by
  induction events using List.reverseRecOn with
  | nil => exact .awake (by simp [executed, stretch])
  | append_singleton events event ih =>
      rw [List.foldl_append]
      exact ih.step event

theorem foldl_observe_of_silent (stopped : log.stopped = true) (later : List Event) :
    later.foldl observe log = log := by
  induction later with
  | nil => rfl
  | cons event later ih => rw [List.foldl_cons, observe_of_silent stopped, ih]

/-- The part of the events that a log hears: up to the instruction that makes it silent. -/
structure Hears (limit : Nat) (events heard : List Event) : Prop where
  first : heard <+: events
  instructions : executed heard = (executed events).take (stretch limit)
  whole : (executed events).length < stretch limit → heard = events
  last : stretch limit ≤ (executed events).length →
    ∃ event, heard.getLast? = some event ∧ event.isInstruction

/-- The lines are those of the events heard; if these were not too few instructions, the notice ends them. -/
theorem Follows.lines (follows : Follows limit events log) :
    ∃ heard, Hears limit events heard ∧ log.lines.toList = heard.filterMap line? ++
      if stretch limit ≤ (executed events).length then [notice limit] else [] := by
  cases follows with
  | awake few =>
      refine ⟨events, ⟨List.prefix_rfl, ?_, fun _ => rfl, fun enough => ?_⟩, ?_⟩
      · rw [List.take_of_length_le few.le]
      · omega
      · rw [if_neg (by omega)]
        simp
  | @silent heard later last whole instructs enough =>
      have split : executed events = executed heard ++ last :: executed later := by
        simp [executed, whole, instructs]
      have reached : stretch limit ≤ (executed events).length := by
        rw [split, List.length_append, List.length_cons]
        omega
      refine ⟨heard ++ [last], ⟨⟨later, by simp [whole]⟩, ?_, fun few => ?_, fun _ => ⟨last, by simp, instructs⟩⟩, ?_⟩
      · rw [split, ← enough, List.take_append, List.take_of_length_le (Nat.le_succ _)]
        simp [executed, instructs]
      · omega
      · rw [if_pos reached]

theorem Follows.stopped (follows : Follows limit events log) (enough : stretch limit ≤ (executed events).length) :
    log.stopped = true := by
  cases follows with
  | awake few => omega
  | silent => rfl

theorem Follows.instructionLines (follows : Follows limit events log) :
    log.lines.toList.filter isInstructionLine = ((executed events).take (stretch limit)).filterMap line? := by
  obtain ⟨heard, hears, lines⟩ := follows.lines
  have quiet : (if stretch limit ≤ (executed events).length then [notice limit] else []).filter
      isInstructionLine = [] := by
    split <;> simp [isInstructionLine_notice]
  rw [lines, List.filter_append, filter_isInstructionLine, hears.instructions, quiet, List.append_nil]

end Log

/-- A log with a limit writes a line for each event that has one, up to the instruction that makes as many
as the limit, and at least one. It then writes the notice, once, and nothing more whatever follows. So its
lines of instructions are those of the first ones; they are as many as the limit allows, unless the limit is
nought and there is an instruction. -/
theorem limited_log_exact (limit : Nat) (events : List Event) :
    ∃ log, (Tracer.log { limit := some limit }).observeAll events.toArray = .log log ∧
      (∃ heard, Log.Hears limit events heard ∧ log.lines.toList = heard.filterMap Log.line? ++
        if Log.stretch limit ≤ (Event.executed events).length then [Log.notice limit] else []) ∧
      (Log.stretch limit ≤ (Event.executed events).length → ∀ later : List Event,
        (Tracer.log { limit := some limit }).observeAll (events ++ later).toArray = .log log) ∧
      log.lines.toList.filter Log.isInstructionLine =
        ((Event.executed events).take (Log.stretch limit)).filterMap Log.line? ∧
      ((log.lines.toList.filter Log.isInstructionLine).length = min limit (Event.executed events).length ↔
        0 < limit ∨ Event.executed events = []) := by
  have observed (events : List Event) : (Tracer.log { limit := some limit }).observeAll events.toArray =
      .log (events.foldl Log.observe { limit := some limit }) :=
    Tracer.observeAll_eq .log (fun _ _ => rfl) _ _
  have follows := Log.follows_foldl limit events
  refine ⟨_, observed events, follows.lines, fun enough later => ?_, follows.instructionLines, ?_⟩
  · rw [observed, List.foldl_append, Log.foldl_observe_of_silent (follows.stopped enough)]
  · have lines : (((Event.executed events).take (Log.stretch limit)).filterMap Log.line?).length =
        ((Event.executed events).take (Log.stretch limit)).length := by
      refine List.filterMap_length_eq_length.mpr fun event member => Log.line?_isSome ?_
      exact (List.mem_filter.mp (List.mem_of_mem_take member)).2
    rw [follows.instructionLines, lines, List.length_take, ← List.length_eq_zero_iff]
    unfold Log.stretch
    omega

/-- With the limit nought an instruction is written all the same. -/
theorem zero_limit_writes_instruction :
    ∃ log, (Tracer.log { limit := some 0 }).observeAll #[.instruction 0 .nop 0 1] = .log log ∧
      log.lines.toList = ["[    0] NOP                  stack=0  frames=1", "[trace stopped after 0 instructions]"] ∧
      (log.lines.toList.filter Log.isInstructionLine).length ≠ min 0 1 := by
  refine ⟨_, rfl, ?_, ?_⟩
  · rfl
  · decide

end BlockVM
