import BlockVM.Binary64.Layout
import BlockVM.Text.Basic
import BlockVM.Trace.Event

namespace BlockVM

/-- An event as a recording keeps it: at an instruction the number of frames is dropped. -/
def Event.recorded : Event → Event
  | .instruction offset opcode stackDepth _ => .instruction offset opcode stackDepth 0
  | event => event

/-- Keeps events, up to a limit if there is one. -/
structure Recording where
  limit : Option Nat := none
  events : Array Event := #[]
deriving Inhabited

namespace Recording

def isFull (recording : Recording) : Bool :=
  match recording.limit with
  | some limit => limit ≤ recording.events.size
  | none => false

def observe (recording : Recording) (event : Event) : Recording :=
  if recording.isFull then recording else { recording with events := recording.events.push event.recorded }

end Recording

/-- The offsets at which instructions were executed, in increasing order. -/
structure Coverage where
  offsets : List Nat := []
deriving Inhabited

namespace Coverage

/-- Adds an offset to a list in increasing order, unless it is there. -/
def insert (offset : Nat) : List Nat → List Nat
  | [] => [offset]
  | first :: rest =>
      if offset < first then offset :: first :: rest
      else if offset = first then first :: rest
      else first :: insert offset rest

def observe (coverage : Coverage) : Event → Coverage
  | .instruction offset .. => ⟨insert offset coverage.offsets⟩
  | _ => coverage

end Coverage

/-- Counters over a run. -/
structure Profile where
  /-- How often each opcode was executed, in the order of the first times. -/
  counts : List (Opcode × Nat) := []
  instructions : Nat := 0
  calls : Nat := 0
  maxDepth : Nat := 0
  maxBlockDepth : Nat := 0
  exceptions : Nat := 0
deriving Inhabited

namespace Profile

def increment (opcode : Opcode) : List (Opcode × Nat) → List (Opcode × Nat)
  | [] => [(opcode, 1)]
  | (other, count) :: rest =>
      if other = opcode then (other, count + 1) :: rest else (other, count) :: increment opcode rest

def observe (profile : Profile) : Event → Profile
  | .instruction _ opcode _ _ =>
      { profile with counts := increment opcode profile.counts, instructions := profile.instructions + 1 }
  | .call _ depth =>
      { profile with calls := profile.calls + 1, maxDepth := max profile.maxDepth depth }
  | .blockPush _ depth => { profile with maxBlockDepth := max profile.maxBlockDepth depth }
  | .exception .. => { profile with exceptions := profile.exceptions + 1 }
  | _ => profile

/-- More frequent opcodes come first; of equally frequent ones the one with the smaller byte. -/
def precedes (a b : Opcode × Nat) : Bool :=
  b.2 < a.2 || (a.2 == b.2 && a.1.toNat ≤ b.1.toNat)

def ranking (profile : Profile) : List (Opcode × Nat) :=
  profile.counts.mergeSort precedes

/-- The share of `count` in `total` in per cent with one decimal place. -/
def share (count total : Nat) : String :=
  match Binary64.ofFloat (count.toFloat / total.toFloat * 100) with
  | .finite _ significand exponent => Binary64.onePlace significand exponent
  | .infinite _ => "inf"
  | .nan => "NaN"

def line (total : Nat) (entry : Opcode × Nat) : String :=
  let (opcode, count) := entry
  "  " ++ Text.alignLeft 20 opcode.mnemonic ++ " " ++ Text.alignRight 10 (toString count) ++ "  (" ++
    Text.alignRight 5 (share count total) ++ "%)\n"

def report (profile : Profile) : String :=
  s!"instructions dispatched: {profile.instructions}\n" ++
    s!"frames pushed:           {profile.calls}\n" ++
    s!"deepest call stack:      {profile.maxDepth}\n" ++
    s!"deepest block stack:     {profile.maxBlockDepth}\n" ++
    s!"exceptions raised:       {profile.exceptions}\n\nopcode counts:\n" ++
    String.join (profile.ranking.map (line profile.instructions))

end Profile

/-- A line of text for each event. With a limit it falls silent after so many instructions; the
limit is asked after an instruction is written, so the first is always written. -/
structure Log where
  limit : Option Nat := none
  instructions : Nat := 0
  stopped : Bool := false
  lines : Array String := #[]
deriving Inhabited

namespace Log

def line? : Event → Option String
  | .instruction offset opcode stackDepth frameDepth =>
      some ("[" ++ Text.alignRight 5 (toString offset) ++ "] " ++ Text.alignLeft 20 opcode.mnemonic ++
        s!" stack={stackDepth}  frames={frameDepth}")
  | .call code depth => some s!"  >>> enter {code} depth={depth}"
  | .return depth => some s!"  <<< back to depth={depth}"
  | .blockPush kind depth => some ("  +++ BLOCK " ++ kind.name ++ s!" blocks={depth}")
  | .blockPop kind depth => some ("  --- BLOCK " ++ kind.name ++ s!" blocks={depth}")
  | .exception kind frameDepth => some ("  !!! " ++ kind.name ++ s!" raised, frames={frameDepth}")
  | .makeFunction _ => none

def write (log : Log) (event : Event) : Log :=
  match line? event with
  | some text => { log with lines := log.lines.push text }
  | none => log

/-- Counts an instruction and stops once the limit is reached. -/
def countInstruction (log : Log) : Log :=
  let counted := { log with instructions := log.instructions + 1 }
  match log.limit with
  | some limit =>
      if limit ≤ counted.instructions then
        { counted with
          stopped := true
          lines := counted.lines.push s!"[trace stopped after {limit} instructions]" }
      else counted
  | none => counted

def observe (log : Log) (event : Event) : Log :=
  if log.stopped then log
  else
    match event with
    | .instruction .. => (log.write event).countInstruction
    | _ => log.write event

def text (log : Log) : String :=
  String.join (log.lines.toList.map (· ++ "\n"))

end Log

/-- An observer of a run. -/
inductive Tracer where
  | none
  | recording (recording : Recording)
  | profile (profile : Profile)
  | coverage (coverage : Coverage)
  | log (log : Log)
deriving Inhabited

namespace Tracer

def observe : Tracer → Event → Tracer
  | .none, _ => .none
  | .recording r, event => .recording (r.observe event)
  | .profile p, event => .profile (p.observe event)
  | .coverage c, event => .coverage (c.observe event)
  | .log l, event => .log (l.observe event)

def observeAll (tracer : Tracer) (events : Array Event) : Tracer :=
  events.foldl observe tracer

end Tracer

end BlockVM
