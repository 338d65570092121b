import Earliest.DataType
import Earliest.Text.Quoted

/-! Error reports. A report is an entry, the entries that caused it, outermost
first, and possibly a root cause from outside. It is written twice: as `text` for
a reader and as `detail`, which spells out every part. -/

namespace Earliest

/-- Broad categories: bad input, bad configuration, or a bug. -/
inductive ErrorKind where
  | unsupportedType
  | invalidArgument
  | internal
  | resourceExhausted
  | other
  deriving DecidableEq

namespace ErrorKind

def text : ErrorKind → String
  | unsupportedType => "Unsupported type"
  | invalidArgument => "Invalid argument"
  | internal => "Internal"
  | resourceExhausted => "Resource exhausted"
  | other => "Error"

def name : ErrorKind → String
  | unsupportedType => "UnsupportedType"
  | invalidArgument => "InvalidArgument"
  | internal => "Internal"
  | resourceExhausted => "ResourceExhausted"
  | other => "Other"

end ErrorKind

/-- A value that gives an error context. -/
inductive FieldValue where
  | string (s : String)
  | flag (b : Bool)
  | number (n : Int)
  | dataType (t : DataType)
  | physical (p : Physical)
  deriving DecidableEq

namespace FieldValue

def text : FieldValue → String
  | string s => s
  | flag b => if b then "true" else "false"
  | number n => toString n
  | dataType t => t.name
  | physical p => p.name

/-- As `text`, with strings quoted and units written out. -/
def detail : FieldValue → String
  | string s => Text.quoted s
  | dataType t => t.longName
  | v => v.text

end FieldValue

namespace Report

structure Entry where
  kind : ErrorKind
  message : String
  fields : List (String × FieldValue)
  deriving DecidableEq

/-- A cause that is no report itself, by its two texts. -/
structure RootCause where
  text : String
  detail : String
  deriving DecidableEq

namespace RootCause

def message (s : String) : RootCause := ⟨s, Text.quoted s⟩

def formatting : RootCause := ⟨"an error occurred when formatting an argument", "Error"⟩

def io (s : String) : RootCause :=
  ⟨s, "Custom \x7b kind: Other, error: " ++ Text.quoted s ++ " \x7d"⟩

end RootCause

def Entry.text (e : Entry) : String :=
  e.message ++ String.join (e.fields.map fun f => "\n  " ++ f.1 ++ ": " ++ f.2.text)

/-- The entry's parts, followed by those of its source. -/
def Entry.detail (e : Entry) (source : String) : String :=
  "DbError \x7b kind: " ++ e.kind.name ++ ", msg: " ++ Text.quoted e.message ++
    String.join (e.fields.map fun f => ", " ++ f.1 ++ ": " ++ f.2.detail) ++
    ", source: " ++ source ++ " \x7d"

def sourceDetail (root : Option RootCause) : List Entry → String
  | [] =>
    match root with
    | none => "None"
    | some cause => "Some(" ++ cause.detail ++ ")"
  | e :: rest => "Some(" ++ e.detail (sourceDetail root rest) ++ ")"

end Report

structure Report where
  top : Report.Entry
  /-- What the top entry wraps, outermost first. -/
  causes : List Report.Entry
  root : Option Report.RootCause
  deriving DecidableEq

namespace Report

def new (kind : ErrorKind) (message : String) : Report := ⟨⟨kind, message, []⟩, [], none⟩

def withRoot (message : String) (cause : RootCause) : Report :=
  ⟨⟨.other, message, []⟩, [], some cause⟩

def format : Report := withRoot "Format error" .formatting

def io (s : String) : Report := withRoot "IO error" (.io s)

def withFields (r : Report) (fields : List (String × FieldValue)) : Report :=
  { r with top.fields := r.top.fields ++ fields }

def withField (r : Report) (key : String) (value : FieldValue) : Report :=
  r.withFields [(key, value)]

def ofKind (r : Report) (kind : ErrorKind) : Report := { r with top.kind := kind }

/-- A new report caused by this one. -/
def wrap (r : Report) (message : String) : Report :=
  ⟨⟨.other, message, []⟩, r.top :: r.causes, r.root⟩

def kind (r : Report) : ErrorKind := r.top.kind

def message (r : Report) : String := r.top.message

/-- The first field of that key. -/
def field? (r : Report) (key : String) : Option FieldValue := r.top.fields.lookup key

/-- The texts of everything behind the top entry, outermost first. -/
def sources (r : Report) : List String :=
  r.causes.map Entry.text ++ r.root.toList.map RootCause.text

def text (r : Report) : String := "\nError source: ".intercalate (r.top.text :: r.sources)

def sourceText? (r : Report) : Option String :=
  if r.sources.isEmpty then none else some ("\nError source: ".intercalate r.sources)

def detail (r : Report) : String := r.top.detail (sourceDetail r.root r.causes)

end Report

end Earliest
