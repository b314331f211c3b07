/-! Log records, and computations that leave them. -/

namespace StaticSite

inductive LogLevel where
  | debug
  | info
  | warn
  | error
  deriving DecidableEq, Repr

def LogLevel.name : LogLevel → String
  | debug => "DEBUG"
  | info => "INFO"
  | warn => "WARN"
  | error => "ERROR"

/-- The part of the program that a record comes from. -/
inductive LogTarget where
  | source
  | tree
  | parser
  | sections
  | articles
  | build
  | config
  | main
  deriving DecidableEq, Repr

def LogTarget.name : LogTarget → String
  | source => "stitch::source"
  | tree => "stitch::tree"
  | parser => "expander::parser"
  | sections => "expander::sections"
  | articles => "expander::articles"
  | build => "expander::build"
  | config => "stitch::config"
  | main => "stitch"

structure LogRecord where
  level : LogLevel
  target : LogTarget
  text : String
  deriving DecidableEq, Repr

/-- A computation that may fail, with the records it leaves in either case. -/
structure Logged (ε α : Type) where
  log : List LogRecord
  result : Except ε α

namespace Logged

variable {ε α β : Type}

def ok (a : α) : Logged ε α := ⟨[], .ok a⟩

def fail (e : ε) : Logged ε α := ⟨[], .error e⟩

def lift (r : Except ε α) : Logged ε α := ⟨[], r⟩

def record (level : LogLevel) (target : LogTarget) (text : String) : Logged ε Unit :=
  ⟨[⟨level, target, text⟩], .ok ()⟩

def debug (target : LogTarget) (text : String) : Logged ε Unit := record .debug target text

def andThen (x : Logged ε α) (f : α → Logged ε β) : Logged ε β :=
  match x.result with
  | .error e => ⟨x.log, .error e⟩
  | .ok a =>
    let y := f a
    ⟨x.log ++ y.log, y.result⟩

instance : Monad (Logged ε) where
  pure := ok
  bind := andThen

@[simp] theorem result_pure (a : α) : (pure a : Logged ε α).result = .ok a := rfl

@[simp] theorem result_bind (x : Logged ε α) (f : α → Logged ε β) :
    (x >>= f).result = x.result >>= fun a => (f a).result := by
  show (x.andThen f).result = _
  unfold andThen
  cases x.result <;> rfl

end Logged

end StaticSite
