import DdlDiagram.Text.Basic

/-!
# Files as a program sees them

A program reads and writes files by their paths, and their content as text in UTF-8. Why a path
cannot be used is an error of its own kind, with the wording of the operating system.
-/

namespace DdlDiagram

inductive FileError where
  | notFound
  | notDirectory
  | isDirectory
  | nameTooLong
  | nulInName
  | notUtf8
  /-- Any other refusal, in the words of the operating system. -/
  | refused (reason : Text)
  deriving DecidableEq, Repr

def FileError.message : FileError → Text
  | notFound => "No such file or directory (os error 2)".toList
  | notDirectory => "Not a directory (os error 20)".toList
  | isDirectory => "Is a directory (os error 21)".toList
  | nameTooLong => "File name too long (os error 36)".toList
  | nulInName => "file name contained an unexpected NUL byte".toList
  | notUtf8 => "stream did not contain valid UTF-8".toList
  | refused reason => reason

def decodeUtf8 (bytes : ByteArray) : Except FileError Text :=
  match String.fromUTF8? bytes with
  | some s => .ok s.toList
  | none => .error .notUtf8

def encodeUtf8 (t : Text) : ByteArray := (String.ofList t).toUTF8

end DdlDiagram
