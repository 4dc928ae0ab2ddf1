import GherkinTree.Dialect.Vocabulary

/-!
Options of a parse: the dialect of documents that select none, and the path of the document, which
is only recorded. Options may be read from environment variables.
-/

namespace GherkinTree

/-- The path of a file as it was given. -/
structure Path where
  text : String
  deriving DecidableEq, Repr

namespace Path

/-- The parts of a path between slashes. A leading slash is a part of its own; empty parts do not
count, nor do single dots behind the first part. -/
def components (p : Path) : List Text :=
  match splitAll p.text.toList with
  | [] => []
  | [[]] => []
  | [] :: rest => ['/'] :: rest.filter significant
  | first :: rest => first :: rest.filter significant
where
  /-- Cuts a text at its slashes. -/
  splitAll : Text → List Text
    | [] => [[]]
    | c :: t =>
      match splitAll t with
      | [] => [[c]]
      | part :: parts => if c = '/' then [] :: part :: parts else (c :: part) :: parts
  significant (part : Text) : Bool := !part.isEmpty && part != ['.']

/-- Whether two paths have the same parts. -/
def same (p q : Path) : Bool := p.components == q.components

end Path

/-- What is wrong with options. -/
inductive ConfigError where
  | language (cause : LookupError)
  deriving DecidableEq, Repr

def ConfigError.message : ConfigError → String
  | language cause => "invalid default language: " ++ cause.message

structure Options where
  dialect : Dialect
  path : Option Path

namespace Options

/-- English documents without a path. -/
def default : Options := ⟨.english, none⟩

/-- The variable that names the default language. -/
def languageVariable : String := "GHERKIN_CST_LANGUAGE"

/-- The variable that gives the path. -/
def pathVariable : String := "GHERKIN_CST_PATH"

def withLanguage (o : Options) (code : String) : Except ConfigError Options :=
  match Dialect.find code with
  | .ok d => .ok { o with dialect := d }
  | .error e => .error (.language e)

def withPath (o : Options) (path : String) : Options := { o with path := some ⟨path⟩ }

/-- Changes what is given. -/
def override (o : Options) (language path : Option String) : Except ConfigError Options := do
  let o ← match language with
    | some code => o.withLanguage code
    | none => .ok o
  return match path with
    | some p => o.withPath p
    | none => o

/-- Options from variables. A blank value counts as none, and blanks around a language code are
dropped. -/
def ofVariables (value : String → Option String) : Except ConfigError Options :=
  let given (name : String) := (value name).filter fun v => !(Text.trim v.toList).isEmpty
  default.override
    ((given languageVariable).map fun v => String.ofList (Text.trim v.toList))
    (given pathVariable)

/-- Whether two options agree. -/
def same (a b : Options) : Bool :=
  a.dialect == b.dialect &&
    match a.path, b.path with
    | none, none => true
    | some p, some q => p.same q
    | _, _ => false

end Options

end GherkinTree
