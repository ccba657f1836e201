import FrontEnd.Command.Usage
import FrontEnd.Text.DecimalDigit

/-!
# Reading the command line

Arguments are classified first, all of them, and then obeyed from left to right; the first one that makes no sense
decides, and so does a request for help or for the version.

* `classify` tells switches from plain words. Long switches may be abbreviated, and values may be attached. What looks
  like a negative number, or has a space in it, is a plain word unless it is a switch. After `--` all words are plain.
* `obey` fills in the settings. The first plain word is the source text; what finds no use is reported at the end.
  A field whose value is just `--` is given no value, and nobody minds until the value is needed.
-/

namespace FrontEnd.Command

/-! ## Classification -/

inductive Word where
  | plain (text : String)
  /-- The first `--`. -/
  | divider
  /-- Looks like a switch, but is none. -/
  | unknown (text : String)
  /-- `attached` is a text written in one argument with the switch. -/
  | switch (s : Switch) (short : Bool) (attached : Option (List Char))
deriving DecidableEq, Repr

/-- The text up to the first equals sign and, if there is one, the text behind it. -/
def splitEquals : List Char → List Char × Option (List Char)
  | [] => ([], none)
  | c :: cs =>
    if c = '=' then ([], some cs)
    else
      let (name, value) := splitEquals cs
      (c :: name, value)

def isDecimalDigit (c : Char) : Bool :=
  (Text.digitValue? c).isSome

/-- Digits, or a point with digits behind it and perhaps before it. -/
def isUnsignedNumber (cs : List Char) : Bool :=
  match cs.dropWhile isDecimalDigit with
  | [] => !cs.isEmpty
  | '.' :: fraction => !fraction.isEmpty && fraction.all isDecimalDigit
  | _ => false

/-- Whether what follows a minus sign makes a negative number; one LF at the end does no harm. -/
def isNumberAfterMinus (cs : List Char) : Bool :=
  isUnsignedNumber cs || (cs.getLast? == some '\n' && isUnsignedNumber cs.dropLast)

/-- A word that starts with a minus sign and is no switch. -/
def classifyDashed (arg : String) : Word :=
  if isNumberAfterMinus (arg.toList.drop 1) || arg.toList.contains ' ' then .plain arg else .unknown arg

/-- The switches that a long spelling may abbreviate. -/
def candidates (name : List Char) : List (String × Switch) :=
  Switch.spellings.filter fun (spelling, _) => name.isPrefixOf spelling.toList

def classifyLong (arg : String) : Except UsageFault Word :=
  let (name, value) := splitEquals arg.toList
  match candidates name with
  | [] => .ok (classifyDashed arg)
  | [(_, s)] => .ok (.switch s false value)
  | several => .error (.ambiguous arg (several.map Prod.fst))

def classifyShort (arg : String) : Word :=
  match Switch.ofSpelling? (String.ofList (arg.toList.take 2)) with
  | some s => .switch s true (some (arg.toList.drop 2))
  | none => classifyDashed arg

/-- Whether a spelling is that of a short switch. -/
def isShort (spelling : List Char) : Bool :=
  spelling.getD 1 '-' != '-'

def classify (arg : String) : Except UsageFault Word :=
  match arg.toList with
  | '-' :: second :: _ =>
    match Switch.ofSpelling? arg with
    | some s => .ok (.switch s (isShort arg.toList) none)
    | none =>
      let (name, value) := splitEquals arg.toList
      match Switch.ofSpelling? (String.ofList name), value with
      | some s, some v => .ok (.switch s (isShort name) (some v))
      | _, _ => if second = '-' then classifyLong arg else .ok (classifyShort arg)
  | _ => .ok (.plain arg)

def classifyAll : List String → Except UsageFault (List Word)
  | [] => .ok []
  | arg :: args =>
    if arg = "--" then .ok (.divider :: args.map .plain)
    else do return (← classify arg) :: (← classifyAll args)

/-! ## Obeying -/

structure Settings where
  source : Option String := none
  file : Option String := none
  /-- What to parse; `none` if the choice was left out, which matters only if something is to be parsed. -/
  entry : Option Entry := some .program
  tokens : Bool := false
  layout : Layout := .tree
  spans : Bool := false
  /-- The words to reserve; `none` stands for one that was left out. -/
  keywords : List (Option String) := []
  allowTrailing : Bool := false
deriving DecidableEq, Repr

/-- Why reading the command line ends early. -/
inductive Ending where
  | help
  | version
  | fault (f : UsageFault)
deriving DecidableEq, Repr

inductive Order where
  | set (f : Flag)
  /-- The value is `none` if it was left out. -/
  | give (f : Field) (value : Option String)
deriving DecidableEq, Repr

/-- The value a text gives to a field: `--` stands for a value that is left out. -/
def fieldValue (text : String) : Option String :=
  if text = "--" then none else some text

def Settings.obey (st : Settings) : Order → Except Ending Settings
  | .set .help => .error .help
  | .set .version => .error .version
  | .set .tokens => .ok { st with tokens := true }
  | .set .spans => .ok { st with spans := true }
  | .set .allowTrailing => .ok { st with allowTrailing := true }
  | .give .file path =>
    if st.source.isSome then .error (.fault (.exclusive (Switch.field .file).title sourceTitle))
    else .ok { st with file := some (path.getD "") }
  | .give .entry none => .ok { st with entry := none }
  | .give .entry (some name) =>
    match Entry.ofName? name with
    | some e => .ok { st with entry := some e }
    | none => .error (.fault (.invalidChoice .entry name Entry.names))
  | .give .format none => .ok { st with layout := .tree }
  | .give .format (some name) =>
    match Layout.ofName? name with
    | some l => .ok { st with layout := l }
    | none => .error (.fault (.invalidChoice .format name Layout.names))
  | .give .keyword word => .ok { st with keywords := st.keywords ++ [word] }

def Settings.giveSource (st : Settings) (text : String) : Except Ending Settings :=
  if st.file.isSome then .error (.fault (.exclusive sourceTitle (Switch.field .file).title))
  else .ok { st with source := some text }

/-- What one argument that is a switch asks for. -/
structure Orders where
  orders : List Order
  /-- Whether the next word was taken as a value. -/
  usesNext : Bool
deriving DecidableEq, Repr

/-- A switch with nothing attached: a field takes the next word if that is a plain one. -/
def ordersAlone (next : Option String) : Switch → Except UsageFault Orders
  | .flag f => .ok ⟨[.set f], false⟩
  | .field f =>
    match next with
    | some text => .ok ⟨[.give f (fieldValue text)], true⟩
    | none => .error (.expectedValue f)

def Orders.after (first : Order) (o : Orders) : Orders :=
  { o with orders := first :: o.orders }

/-- A switch with a text attached: a field takes it as its value, and a short flag takes it as more short switches. -/
def ordersAttached (next : Option String) : Switch → (short : Bool) → List Char → Except UsageFault Orders
  | .field f, _, text => .ok ⟨[.give f (fieldValue (String.ofList text))], false⟩
  | .flag f, _, [] => .error (.ignoredValue f "")
  | .flag f, false, text => .error (.ignoredValue f (String.ofList text))
  | .flag f, true, c :: cs =>
    match Switch.ofSpelling? (String.ofList ['-', c]), cs with
    | none, _ => .error (.ignoredValue f (String.ofList (c :: cs)))
    | some s, [] => (ordersAlone next s).map (.after (.set f))
    | some s, _ :: _ => (ordersAttached next s true cs).map (.after (.set f))

structure Reader where
  settings : Settings
  /-- Whether the place of the source text is taken. -/
  sourceTaken : Bool
  /-- Words that found no use. -/
  extras : List String
deriving DecidableEq, Repr

def Word.text? : Word → Option String
  | plain text => some text
  | _ => none

/-- A divider right behind the source text belongs to it. -/
def dropDivider : List Word → List Word
  | .divider :: ws => ws
  | ws => ws

theorem length_dropDivider_le (ws : List Word) : (dropDivider ws).length ≤ ws.length := by
  unfold dropDivider
  split <;> simp

def Reader.obey (r : Reader) : List Word → Except Ending Reader
  | [] => .ok r
  | .unknown text :: ws => Reader.obey { r with extras := r.extras ++ [text] } ws
  | .divider :: ws =>
    if r.sourceTaken then Reader.obey { r with extras := r.extras ++ ["--"] } ws else r.obey ws
  | .plain text :: ws =>
    if r.sourceTaken then Reader.obey { r with extras := r.extras ++ [text] } ws
    else
      have := length_dropDivider_le ws
      match r.settings.giveSource text with
      | .error e => .error e
      | .ok st => Reader.obey { r with settings := st, sourceTaken := true } (dropDivider ws)
  | .switch s short attached :: ws =>
    let next := ws.head?.bind Word.text?
    let orders :=
      match attached with
      | none => ordersAlone next s
      | some text => ordersAttached next s short text
    match orders with
    | .error f => .error (.fault f)
    | .ok o =>
      match o.orders.foldlM Settings.obey r.settings with
      | .error e => .error e
      | .ok st =>
        Reader.obey { r with settings := st } (if o.usesNext then ws.tail else ws)
termination_by ws => ws.length
decreasing_by
  all_goals simp_wf
  · omega
  · split
    · rw [List.length_tail]
      omega
    · omega

/-- The settings that a command line asks for. -/
def readArguments (args : List String) : Except Ending Settings :=
  match classifyAll args with
  | .error f => .error (.fault f)
  | .ok words =>
    match Reader.obey ⟨{}, false, []⟩ words with
    | .error e => .error e
    | .ok r =>
      if r.settings.source.isNone ∧ r.settings.file.isNone then .error (.fault .nothingToRead)
      else if r.extras = [] then .ok r.settings
      else .error (.fault (.unrecognized r.extras))

end FrontEnd.Command
