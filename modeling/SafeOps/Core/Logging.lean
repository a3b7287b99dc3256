import SafeOps.Serial.Json

/-! `app/core/logging.py`: structured log records, and the redaction of what they hold under keys that look
like secrets. -/

namespace SafeOps.Logging
open Serial

section Pattern

/-- A piece of `_SENSITIVE_KEY_PATTERN`: a letter, or `[_-]?`. -/
inductive Piece
  | letter (c : Char)
  | dash

/-- A letter of the pattern under `re.IGNORECASE`: either case, and the letters beyond ASCII that fold to it. -/
def sameLetter (c d : Char) : Bool :=
  d.toLower = c || (c = 'i' && (d = 'İ' || d = 'ı')) || (c = 's' && d = 'ſ') || (c = 'k' && d = '\u212a')

def matchesHere : List Piece → List Char → Bool
  | [], _ => true
  | .letter _ :: _, [] => false
  | .letter c :: pieces, d :: ds => sameLetter c d && matchesHere pieces ds
  | .dash :: pieces, [] => matchesHere pieces []
  | .dash :: pieces, d :: ds => ((d = '_' || d = '-') && matchesHere pieces ds) || matchesHere pieces (d :: ds)

def word (s : String) : List Piece := s.toList.map .letter

/-- The alternatives of `_SENSITIVE_KEY_PATTERN`. Where `pass` is found, `pass(word)?` is. -/
def sensitiveAlternatives : List (List Piece) :=
  [word "pass", word "secret", word "token", word "api" ++ .dash :: word "key",
    word "private" ++ .dash :: word "key", word "credential", word "authorization",
    word "access" ++ .dash :: word "key", word "refresh" ++ .dash :: word "key", word "cookie"]

/-- `_is_sensitive_key`. -/
def isSensitiveKey (key : String) : Bool :=
  key.toList.tails.any fun rest => sensitiveAlternatives.any fun pieces => matchesHere pieces rest

end Pattern

variable {φ : Type}

def redacted : Json φ := .str "***REDACTED***"

mutual

/-- `_redact_recursive`. -/
def redactRecursive : Json φ → Json φ
  | .null => .null
  | .bool b => .bool b
  | .int n => .int n
  | .float x => .float x
  | .str s => .str s
  | .list xs => .list (redactItems xs)
  | .obj entries => .obj (redactEntries entries)

def redactItems : List (Json φ) → List (Json φ)
  | [] => []
  | x :: xs => redactRecursive x :: redactItems xs

def redactEntries : List (String × Json φ) → List (String × Json φ)
  | [] => []
  | (key, x) :: entries =>
    (key, if isSensitiveKey key then redacted else redactRecursive x) :: redactEntries entries

end

/-- What a log record carries besides its message. -/
structure RecordContext where
  timestamp : String
  requestId : String
  executionId : Option String
  agentId : Option String

/-- `payload` of `RedactingJSONFormatter.format`, for a record with the given extra attributes. -/
def format (context : RecordContext) (level message logger : String) (extra : List (String × Json φ)) :
    Json φ :=
  .obj ([("timestamp", .str context.timestamp), ("level", .str level), ("message", .str message),
    ("logger", .str logger), ("request_id", .str context.requestId),
    ("execution_id", context.executionId.elim .null .str), ("agent_id", context.agentId.elim .null .str)] ++
      redactEntries extra)

end SafeOps.Logging
