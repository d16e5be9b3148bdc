import SourceEdit.Document.Script
import SourceEdit.FileSystem.Lock
import SourceEdit.Pattern.Parser

set_option autoImplicit false

namespace SourceEdit

inductive AccessError where
  | nothingAllowed
  | outside (path : Path)
  | linkOutside
  | noParent (path : Path)
  | parentOutside
  | nulCharacter
deriving DecidableEq, Repr

namespace AccessError

def message : AccessError → Text
  | .nothingAllowed => "Configuration error: No allowed directories specified.".toList
  | .outside path => "Access denied - path outside allowed directories: ".toList ++ path
  | .linkOutside => "Access denied - symlink target outside allowed directories".toList
  | .noParent path => "Parent directory does not exist: ".toList ++ path
  | .parentOutside => "Access denied - parent directory outside allowed directories".toList
  | .nulCharacter => FileCause.nulCharacter.describe.toList

end AccessError

inductive SettingsFault where
  | badSyntax (detail : Text)
  | noObject
  | kindsNoObject
  | patternsNoTexts
deriving DecidableEq, Repr

inductive Failure where
  | edit (e : EditError)
  | file (e : FileError)
  | lock (e : LockError)
  | raised (message : Text)
  | pattern (e : PatternError)
  | access (e : AccessError)
  | settings (path : Path) (fault : SettingsFault)
  | unknownKind (shown : Text)
  | notUtf8 (e : Utf8Error)
  | rootNotDirectory (path : Path)
  | noAllowedDirectory
  | allowedNotDirectory (path : Path)
  | allowedNotReadable (path : Path)
  | notConfigured
  | fileNotFound (path : Path)
  | lineBeyondEnd (line count : Int)
  | noGroups
  | unknownLogLevel (level : Text)
deriving DecidableEq, Repr

namespace Failure

def ofBlock : BlockError → Failure
  | .rejected e => .edit e
  | .raised message => .raised message

def utf8Message (e : Utf8Error) : Text :=
  let place :=
    if e.stop = e.start + 1 then
      "byte 0x".toList ++ Text.hexDigits 2 e.octet.toNat ++ " in position ".toList ++
        Text.ofInt e.start
    else "bytes in position ".toList ++ Text.ofInt e.start ++ ['-'] ++ Text.ofInt (e.stop - 1 : Nat)
  let flaw := match e.flaw with
    | .badStart => "invalid start byte"
    | .badContinuation => "invalid continuation byte"
    | .cutShort => "unexpected end of data"
  "'utf-8' codec can't decode ".toList ++ place ++ [':', ' '] ++ flaw.toList

def settingsMessage (path : Path) (fault : SettingsFault) : Text :=
  "Invalid settings file ".toList ++ path ++ [':', ' '] ++
    match fault with
    | .badSyntax detail => detail
    | .noObject => "expected a JSON object".toList
    | .kindsNoObject => "'mime_types' must be an object".toList
    | .patternsNoTexts => "'exclude_patterns' must be a list of strings".toList

def message : Failure → Text
  | .edit e => e.message
  | .file e => e.message
  | .lock e => e.message
  | .raised message => message
  | .pattern _ => "not a pattern".toList
  | .access e => e.message
  | .settings path fault => settingsMessage path fault
  | .unknownKind shown => shown ++ " is not a valid DocumentType".toList
  | .notUtf8 e => utf8Message e
  | .rootNotDirectory path => "Project root is not a directory: ".toList ++ path
  | .noAllowedDirectory => "No valid allowed directories provided.".toList
  | .allowedNotDirectory path =>
    "Allowed directory '".toList ++ path ++ "' is not a directory.".toList
  | .allowedNotReadable path =>
    "Insufficient permissions (need read access) for '".toList ++ path ++ "'.".toList
  | .notConfigured => "Server is not configured with any allowed directory.".toList
  | .fileNotFound path => "File not found: ".toList ++ path
  | .lineBeyondEnd line count =>
    "line_start (".toList ++ Text.ofInt line ++ ") is beyond the end of the file (".toList ++
      Text.ofInt count ++ " lines).".toList
  | .noGroups => "list index out of range".toList
  | .unknownLogLevel level => "Unknown level: ".toList ++ Text.quoted level

end Failure

end SourceEdit
