import Waterjet.Text.Quoted

/-!
File names and what they lead to. The command sees the files only through `FileState`, so its
answer is a function of the arguments and of two such states.
-/
namespace Waterjet.Cli

/-- What a name leads to. For a file that cannot be opened there is an error of the system. -/
inductive FileState where
  | missing
  | directory
  | underFile
  | nameTooLong
  | nullInName
  | unreadable (code : Nat) (reason : String)
  | contents (bytes : List UInt8)

/-- The system's error for links that lead round in a circle, to no file. -/
def loopCode : Nat := 40

/-- What stands behind a name for which the system has an error. -/
def FileState.ofError (code : Nat) (reason : String) : FileState :=
  match code with
  | 2 => .missing
  | 20 => .underFile
  | 21 => .directory
  | 36 => .nameTooLong
  | 40 => .unreadable loopCode "Too many levels of symbolic links"
  | code => .unreadable code reason

/-- The slashes in front of a name: two are kept, any other number counts as one. -/
def rootText (slashes : Nat) : String :=
  if slashes == 0 then "" else if slashes == 2 then "//" else "/"

/-- A file name without empty parts and single dots. -/
def plainName (name : String) : String :=
  let cs := name.toList
  let parts := (cs.splitOnP (· == '/')).filter fun part => !part.isEmpty && part != ['.']
  let body :=
    rootText (cs.takeWhile (· == '/')).length ++ "/".intercalate (parts.map String.ofList)
  if body.isEmpty then "." else body

def shownName (name : String) : String := Text.quoted (plainName name)

/-- The most bytes that one part of a name may have. -/
def partLimit : Nat := 255

/-- The most bytes that a whole name may have. -/
def nameLimit : Nat := 4095

def isTooLongPart (part : String) : Bool := partLimit < part.utf8ByteSize

/-- What a name leads to wherever it is looked up: one with a null character to nothing at all, and
one that is too long to nothing that could be named. -/
def unusableName? (name : String) : Option FileState :=
  if name.toList.contains '\x00' then some .nullInName
  else if nameLimit < (plainName name).utf8ByteSize then some .nameTooLong
  else none

def isDirectoryMessage (name : String) : String :=
  s!"[Errno 21] Is a directory: {shownName name}"

def nameTooLongMessage (name : String) : String :=
  s!"[Errno 36] File name too long: {shownName name}"

def unreadableMessage (name : String) (code : Nat) (reason : String) : String :=
  s!"[Errno {code}] {reason}: {shownName name}"

def nullInNameMessage : String := "embedded null byte"

/-- Why a name gives no contents. -/
def FileState.refusal (name : String) : FileState → String
  | .missing => s!"[Errno 2] No such file or directory: {shownName name}"
  | .directory => isDirectoryMessage name
  | .underFile => s!"[Errno 20] Not a directory: {shownName name}"
  | .nameTooLong => nameTooLongMessage name
  | .nullInName => nullInNameMessage
  | .unreadable code reason => unreadableMessage name code reason
  | .contents _ => ""

end Waterjet.Cli
