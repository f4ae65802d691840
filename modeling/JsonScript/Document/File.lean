import JsonScript.Diagnostic

/-!
# Documents in files

A document file is a file of UTF-8 text. What the system says about a file is
handed in as a `FileRead`; here it becomes the text of the document, or a
diagnostic that names the path.

## Main results

* `textOf_missing` — the complaint about a file that is not there.
-/

namespace JsonScript

/-- What reading a file brings. -/
inductive FileRead where
  /-- Its bytes. -/
  | bytes (content : ByteArray)
  /-- The news that there is no such file. -/
  | missing
  /-- Another reason why it cannot be read, in the system's words. -/
  | unavailable (reason : String)
  deriving Inhabited

namespace FileRead

/-- The complaint that a file cannot be read. -/
def complaint (path reason : String) : Diagnostic :=
  ⟨.unreadable ("cannot read file '" ++ path ++ "': " ++ reason), none⟩

/-- The text of the file at a path. -/
def textOf (path : String) : FileRead → Except Diagnostic String
  | .bytes content =>
      match String.fromUTF8? content with
      | some text => .ok text
      | none => .error (complaint path "stream did not contain valid UTF-8")
  | .missing => .error (complaint path "No such file or directory (os error 2)")
  | .unavailable reason => .error (complaint path reason)

theorem textOf_missing (path : String) :
    textOf path .missing =
      .error ⟨.unreadable
        ("cannot read file '" ++ path ++ "': " ++ "No such file or directory (os error 2)"),
        none⟩ := rfl

end FileRead

end JsonScript
