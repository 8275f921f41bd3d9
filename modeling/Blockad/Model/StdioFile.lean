import Blockad.Model.Libc

/-!
# `Blockad.Model.StdioFile`: `StdioFile.cc`

A file open for reading is the bytes that `getc` still delivers, and the error that ends
them, if they do not end in EOF. `readline` recurses over these bytes, one `readc` a step.
-/

set_option autoImplicit false

namespace Blockad

open Bytes

/-- What `fopen(path, "r")` finds: an error, or the content and how it ends. -/
abbrev FileContent := Except Errno (Bytes × Option Errno)

/-- `StdioFile`, open for reading. -/
structure StdioFile where
  path : Bytes
  unread : Bytes
  error : Option Errno

namespace StdioFile

/-- `StdioFile::StdioFile`. -/
def openRead (path : Bytes) (file : FileContent) : Except Exn StdioFile :=
  match file with
  | .error errno => .error (.ioError (lit "opening") (some path) errno)
  | .ok (unread, error) => .ok ⟨path, unread, error⟩

/-- The loop of `StdioFile::readline`: `line` was read so far. The result is the returned
truth value, the line and the bytes that are left. -/
def readlineFrom (path : Bytes) (error : Option Errno) (line : Bytes) :
    Bytes → Except Exn (Bool × Bytes × Bytes)
  | [] =>
    match error with
    | some errno => .error (.ioError (lit "reading") (some path) errno)
    | none => .ok (!line.isEmpty, line, [])
  | c :: unread =>
    if c == nl then .ok (true, line, unread)
    else readlineFrom path error (line ++ [c]) unread

/-- `StdioFile::readline`. -/
def readline (f : StdioFile) : Except Exn (Bool × Bytes × StdioFile) :=
  match readlineFrom f.path f.error [] f.unread with
  | .error e => .error e
  | .ok (got, line, unread) => .ok (got, line, { f with unread := unread })

/-- A line that was read leaves fewer bytes behind, unless it was begun before. -/
theorem length_of_readlineFrom {path : Bytes} {error : Option Errno}
    {line unread line' rest : Bytes}
    (h : readlineFrom path error line unread = .ok (true, line', rest)) :
    rest.length < unread.length ∨ unread = [] ∧ line ≠ [] ∧ rest = [] := by
  induction unread generalizing line with
  | nil =>
    cases error with
    | some errno => cases h
    | none =>
      simp only [readlineFrom, Except.ok.injEq, Prod.mk.injEq] at h
      exact .inr ⟨rfl, by simpa using h.1, h.2.2.symm⟩
  | cons c unread ih =>
    rw [readlineFrom] at h
    split at h
    · cases h
      exact .inl (by simp)
    · rcases ih h with hlt | ⟨rfl, -, rfl⟩
      · exact .inl (by rw [List.length_cons]; omega)
      · exact .inl (by simp)

/-- Each line that `readline` returns leaves fewer bytes behind. -/
theorem length_of_readline {f f' : StdioFile} {line : Bytes}
    (h : f.readline = .ok (true, line, f')) : f'.unread.length < f.unread.length := by
  unfold readline at h
  split at h <;> cases h
  rcases length_of_readlineFrom ‹_› with hlt | ⟨-, hne, -⟩
  · exact hlt
  · exact absurd rfl hne

end StdioFile

end Blockad
