import Chronicle.Query.Index

/-!
A position in an ordered set of keys that may change between two steps. The cursor
remembers the last key it gave out and goes on with the first greater one, in
whatever set it then holds. A scan is a cursor that is moved, with its past.
-/

namespace Chronicle

structure KeyCursor where
  keys : KeySet
  last : Option String

namespace KeyCursor

def ofKeys (keys : KeySet) : KeyCursor := ⟨keys, none⟩

def reseed (cursor : KeyCursor) (keys : KeySet) : KeyCursor := { cursor with keys := keys }

def isAhead (cursor : KeyCursor) (key : String) : Bool :=
  match cursor.last with
  | none => true
  | some last => last < key

def next? (cursor : KeyCursor) : Option String := cursor.keys.keys.find? cursor.isAhead

/-- The next key and the cursor after it. A cursor without a next key stays put. -/
def step (cursor : KeyCursor) : Option String × KeyCursor :=
  match cursor.next? with
  | some key => (some key, { cursor with last := some key })
  | none => (none, cursor)

inductive Move where
  | next
  | reseed (keys : KeySet)

/-- A cursor with its past: all sets that it has held, the present one last, and all keys that
it has returned. -/
structure Scan where
  cursor : KeyCursor
  held : List KeySet
  returned : List String

namespace Scan

def start (keys : KeySet) : Scan := ⟨ofKeys keys, [keys], []⟩

def move (scan : Scan) : Move → Scan
  | .next => { scan with
      cursor := scan.cursor.step.2
      returned := scan.returned ++ scan.cursor.step.1.toList }
  | .reseed keys => { scan with
      cursor := scan.cursor.reseed keys
      held := scan.held ++ [keys] }

def after (keys : KeySet) (moves : List Move) : Scan := moves.foldl move (start keys)

end Scan

end KeyCursor

end Chronicle
