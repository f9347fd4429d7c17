import LiveTracks.FileTree
import LiveTracks.Settings.Reader

/-!
# Settings from a file
-/

namespace LiveTracks.Settings

/-- Why there are no settings. -/
inductive LoadError where
  | unreadable (path : String) (cause : ReadError)
  | unparsable (cause : ParseError)

def LoadError.message : LoadError → String
  | unreadable path cause => "failed to read settings from " ++ path ++ ": " ++ cause.text
  | unparsable cause => cause.message

def load (t : FileTree) (path : String) : Except LoadError Settings :=
  match t.readText path with
  | .error cause => .error (.unreadable path cause)
  | .ok text =>
    match parse text with
    | .error cause => .error (.unparsable cause)
    | .ok s => .ok s

end LiveTracks.Settings
