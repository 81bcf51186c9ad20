import BlockVM.Machine.Exec

namespace BlockVM.Exec

def lookup? (space : NamespaceRef) (name : String) : Exec (Option Value) :=
  return ((← get).world.heap.space space).get? name

def bind (space : NamespaceRef) (name : String) (value : Value) : Exec Unit :=
  act (Act.changeHeap (Heap.updateSpace space (·.set name value)))

/-- Unbinds a name, or raises `fault` if it is not bound. -/
def unbind (space : NamespaceRef) (name : String) (fault : Fault) : Exec Unit := do
  match ← lookup? space name with
  | some _ => act (Act.changeHeap (Heap.updateSpace space (·.remove name)))
  | none => raise fault

/-- Globals first, then the built-in names. -/
def globalValue (name : String) : Exec Value := do
  match ← lookup? (← frame).globals name with
  | some value => return value
  | none =>
      match builtinNamed? name with
      | some value => return value
      | none => raise (.undefinedName name)

/-- Locals first, then globals, then the built-in names. -/
def nameValue (name : String) : Exec Value := do
  match ← lookup? (← frame).locals name with
  | some value => return value
  | none => globalValue name

def localValue (name : String) : Exec Value := do
  match ← lookup? (← frame).locals name with
  | some value => return value
  | none => raise (.unboundLocal name)

end BlockVM.Exec
