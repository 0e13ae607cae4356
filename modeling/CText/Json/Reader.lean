import CText.Json.Document

/-!
# Reading documents

A reader asks a document for a value of some shape and reports the first fault on the way. A record
may be written as an object, with its fields in any order and others among them, or as a list of
its fields in their order. A field that stands twice in an object is a fault, and so is an item
after the last field of a list.
-/

namespace CText.Json

namespace Document

/-- The fault of a document of another shape than was asked for. -/
def fault : Document → Fault
  | number none => .malformed
  | text none => .malformed
  | broken reading _ => reading
  | _ => .mistyped

def readText : Document → Except Fault String
  | text (some s) => .ok s
  | d => .error d.fault

def readInt (low high : Int) (d : Document) : Except Fault Int :=
  match d with
  | number (some (.whole n)) => if low ≤ n ∧ n ≤ high then .ok n else .error .mistyped
  | d => .error d.fault

mutual

def pass : Document → Except Fault Unit
  | list items ending => passItems items ending
  | object members ending => passMembers members ending
  | broken _ passing => .error passing
  | _ => .ok ()

def passItems : List Document → Ending → Except Fault Unit
  | [], .closed => .ok ()
  | [], .cut _ passing => .error passing
  | d :: rest, ending => match pass d with
    | .ok () => passItems rest ending
    | .error fault => .error fault

def passMembers : List (Option String × Document) → Ending → Except Fault Unit
  | [], .closed => .ok ()
  | [], .cut _ passing => .error passing
  | (_, d) :: rest, ending => match pass d with
    | .ok () => passMembers rest ending
    | .error fault => .error fault

end

mutual

/-- Reads a value of any shape, at most `depth` lists and objects deep. -/
def readValue (depth : Nat) : Document → Except Fault Json
  | null => .ok .null
  | bool b => .ok (.bool b)
  | number (some n) => .ok (.number n)
  | number none => .error .malformed
  | text (some s) => .ok (.text s)
  | text none => .error .malformed
  | list items ending => match depth with
    | 0 => .error .malformed
    | depth + 1 => (readItems depth items ending).map .list
  | object members ending => match depth with
    | 0 => .error .malformed
    | depth + 1 => (readMembers depth members ending []).map .object
  | broken reading _ => .error reading

def readItems (depth : Nat) : List Document → Ending → Except Fault (List Json)
  | [], .closed => .ok []
  | [], .cut reading _ => .error reading
  | d :: rest, ending => match readValue depth d with
    | .error fault => .error fault
    | .ok item => (readItems depth rest ending).map (item :: ·)

/-- Reads the members of an object into those read before, the last of a key counting. -/
def readMembers (depth : Nat) : List (Option String × Document) → Ending →
    List (String × Json) → Except Fault (List (String × Json))
  | [], .closed, before => .ok before
  | [], .cut reading _, _ => .error reading
  | (none, _) :: _, _, _ => .error .malformed
  | (some key, d) :: rest, ending, before => match readValue depth d with
    | .error fault => .error fault
    | .ok value => readMembers depth rest ending (insertMember key value before)

end

/-- How deep lists and objects may lie in one another. -/
def depthLimit : Nat := 127

/-- What the end of a list or an object that was read means. -/
def finish {σ : Type} (ending : Ending) (s : σ) : Except Fault σ :=
  match ending with
  | .closed => .ok s
  | .cut reading _ => .error reading

/-- Reads the fields of a record one after the other into a state. -/
def readFields {σ : Type} (step : σ → String → Document → Except Fault σ) (state : σ) :
    List (Option String × Document) → Except Fault σ
  | [] => .ok state
  | (none, _) :: _ => .error .malformed
  | (some key, d) :: rest => match step state key d with
    | .error fault => .error fault
    | .ok state => readFields step state rest

def readRecord {σ : Type} (names : List String)
    (step : σ → String → Document → Except Fault σ) (start : σ) : Document → Except Fault σ
  | object members ending => do
    let state ← readFields step start members
    finish ending state
  | list items ending => do
    let state ← readFields step start ((names.map some).zip items)
    if names.length < items.length then .error .malformed else finish ending state
  | d => .error d.fault

/-- Sets a field of a record, which must not have been set before. -/
def setOnce {α : Type} (field : Option α) (value : Except Fault α) : Except Fault (Option α) :=
  match field with
  | some _ => .error .mistyped
  | none => value.map some

/-- A field that must have been set. -/
def require {α : Type} : Option α → Except Fault α
  | some a => .ok a
  | none => .error .mistyped

def readList {α : Type} (item : Document → Except Fault α) : Document → Except Fault (List α)
  | list items ending => do
    let read ← items.mapM item
    finish ending read
  | d => .error d.fault

end Document

def readWith {α : Type} (reader : Document → Except Fault α) (s : String) : Except Fault α := do
  let text := Text.ofChars s.toList
  let value ← reader text.document
  if text.clean then .ok value else .error .malformed

def read (s : String) : Except Fault Json := readWith (Document.readValue Document.depthLimit) s

end CText.Json
