import ZbkcTasks.PyText
import ZbkcTasks.SectionMap
import ZbkcTasks.TextLines

/-! The edits of `zbkc.conf` by `LocalZbkcCluster` of `tasks/vstart_runner.py`. The two patterns are
matched as Python's `re` does, for names with no special character but a dot, which stands for any. -/

namespace ZbkcTasks.VstartConf

open SectionMap TextLines

abbrev Text := List Char

/-! ### The patterns -/

/-- The characters, apart from the dot, that do not stand for themselves in a pattern. -/
def special : Text := "\\^$*+?\x7b\x7d[]()|".toList

def matchName : (name text : Text) → Option (Text × Text)
  | [], text => some ([], text)
  | _ :: _, [] => none
  | p :: name, c :: text =>
      if p = c ∨ p = '.' ∧ c ≠ '\n' then (matchName name text).map (Prod.map (c :: ·) id) else none

def headerLine (subsys : Text) : Text := '[' :: subsys ++ [']']

/-- The match of `\[subsys\]$([\n]|[^\[])+` at the start of a text. -/
def sectionAt (subsys text : Text) : Option Text :=
  (matchName (headerLine subsys ++ ['\n']) text).map fun m => m.1 ++ m.2.takeWhile (· ≠ '[')

/-- The search for `^\[subsys\]$([\n]|[^\[])+`: where the section starts, and the section. -/
def findSection (subsys : Text) : (lineStart : Bool) → Text → Option (Nat × Text)
  | _, [] => none
  | lineStart, c :: text =>
      ((if lineStart then sectionAt subsys (c :: text) else none).map (0, ·)).or
        ((findSection subsys (c = '\n') text).map (Prod.map (· + 1) id))

def startsWithKey (key text : Text) : Bool := (matchName (key ++ " =".toList) text).isSome

/-- The match of `\s*[^#](key) =` at the start of a text: where the key stands. -/
def matchKey (key : Text) : Text → Option Nat
  | [] => none
  | c :: text =>
      ((if isBlank c then matchKey key text else none).map (· + 1)).or
        (if c ≠ '#' ∧ startsWithKey key text then some 1 else none)

/-- The search for `^\s*[^#](key) =`: where the key stands. -/
def findKey (key : Text) : (lineStart : Bool) → Text → Option Nat
  | _, [] => none
  | lineStart, c :: text =>
      (if lineStart then matchKey key (c :: text) else none).or
        ((findKey key (c = '\n') text).map (· + 1))

/-! ### Writing the file -/

def banner : Text := "\n#LOCAL_TEST\n".toList

def findExisting (subsys key existing : Text) : Option Nat :=
  (findSection subsys true existing).bind fun found => (findKey key true found.2).map (found.1 + ·)

def commentOut (subsys key existing : Text) : Text :=
  (findExisting subsys key existing).elim existing fun start =>
    existing.take start ++ '#' :: existing.drop start

def keyLine (key value : Text) : Text := key ++ (" = ".toList ++ value)

def addKey (subsys existing : Text) (kv : Text × Text) : Text :=
  commentOut subsys kv.1 existing ++ (keyLine kv.1 kv.2 ++ ['\n'])

/-- Some settings, in the order in which `items` of the dictionaries gives them. -/
abbrev Listing := List (Text × List (Text × Text))

def addSection (existing : Text) (kvs : Text × List (Text × Text)) : Text :=
  kvs.2.foldl (addKey kvs.1) (existing ++ '\n' :: (headerLine kvs.1 ++ ['\n']))

def writeConf (listing : Listing) (existing : Text) : Text :=
  listing.foldl addSection (beforeFirst banner existing ++ banner)

/-! ### The objects and their calls -/

abbrev Settings := SectionMap Text Text Text

/-- The listing is one order of the dictionary and of the dictionaries in it. -/
structure Lists (listing : Listing) (conf : Settings) : Prop where
  sections_nodup : (listing.map Prod.fst).Nodup
  mem_sections : ∀ subsys, subsys ∈ listing.map Prod.fst ↔ subsys ∈ conf
  keys_nodup : ∀ kvs ∈ listing, (kvs.2.map Prod.fst).Nodup
  mem_keys : ∀ kvs ∈ listing, ∀ key value, (key, value) ∈ kvs.2 ↔ valueOf conf kvs.1 key = some value

/-- A key in a section, by names that can be put into a pattern. -/
structure Place where
  subsys : Text
  key : Text
  plain : ∀ c ∈ subsys ++ key, c ∉ special

inductive Call
  | set (object : Nat) (p : Place) (value : Text)
  | clear (object : Nat) (p : Place)

def Call.object : Call → Nat
  | .set object _ _ => object
  | .clear object _ => object

/-- The file, and `_conf` of every object. -/
structure State where
  text : Text
  conf : Nat → Settings

def start (text : Text) : State := ⟨text, fun _ => ∅⟩

def State.write (st : State) (object : Nat) (conf : Settings) (listing : Listing) : State :=
  ⟨writeConf listing st.text, Function.update st.conf object conf⟩

theorem State.write_conf_self (st : State) (object : Nat) (conf : Settings) (listing : Listing) :
    (st.write object conf listing).conf object = conf := by
  simp only [State.write, Function.update_self]

theorem State.write_conf_of_ne (st : State) {object o : Nat} (ho : o ≠ object) (conf : Settings)
    (listing : Listing) : (st.write object conf listing).conf o = st.conf o := by
  simp only [State.write, Function.update_of_ne ho]

/-- `set_zbkc_conf` and `clear_zbkc_conf`; an object clears only what it has set. -/
inductive Step : State → Call → State → Prop
  | set (st : State) (object : Nat) (p : Place) (value : Text) (listing : Listing)
      (hlists : Lists listing (put (st.conf object) p.subsys p.key value)) :
      Step st (.set object p value) (st.write object (put (st.conf object) p.subsys p.key value) listing)
  | clear (st : State) (object : Nat) (p : Place) (listing : Listing)
      (hset : valueOf (st.conf object) p.subsys p.key ≠ none)
      (hlists : Lists listing (drop (st.conf object) p.subsys p.key)) :
      Step st (.clear object p) (st.write object (drop (st.conf object) p.subsys p.key) listing)

inductive Runs (st : State) : List Call → State → Prop
  | nil : Runs st [] st
  | snoc {calls : List Call} {c : Call} {st₁ st₂ : State} (hrun : Runs st calls st₁)
      (hstep : Step st₁ c st₂) : Runs st (calls ++ [c]) st₂

/-! ### What the file says -/

def lines (text : Text) : List Text := text.splitOn '\n'

inductive Line
  | header (subsys : Text)
  | entry (key value : Text)
  | other
  deriving DecidableEq

/-- The name in a header, which may have blanks behind it. -/
def asHeader (line : Text) : Option Text :=
  let line := (line.reverse.dropWhile isBlank).reverse
  if line.head? = some '[' ∧ line.tail.getLast? = some ']' then some line.tail.dropLast else none

def asEntry (line : Text) : Option (Text × Text) :=
  let key := line.takeWhile (· ≠ '=')
  let rest := line.dropWhile (· ≠ '=')
  if key.getLast? = some ' ' ∧ "= ".toList <+: rest then some (key.dropLast, rest.drop 2) else none

def readLine (line : Text) : Line :=
  let line := line.dropWhile isBlank
  if line.head? = some '#' then .other
  else (asHeader line).elim ((asEntry line).elim .other fun kv => .entry kv.1 kv.2) .header

/-- Reading on: whether the last header names the section, and the value seen last. -/
def scanLine (subsys key : Text) (seen : Bool × Option Text) : Line → Bool × Option Text
  | .header name => (name = subsys, seen.2)
  | .entry k value => if seen.1 ∧ k = key then (seen.1, some value) else seen
  | .other => seen

def scan (subsys key : Text) (ls : List Text) (seen : Bool × Option Text) : Bool × Option Text :=
  (ls.map readLine).foldl (scanLine subsys key) seen

/-- The value of the last uncommented line for the key in any section of the name. -/
def effective (text subsys key : Text) : Option Text := (scan subsys key (lines text) (false, none)).2

/-! ### What the file should say -/

structure Setting where
  object : Nat
  subsys : Text
  key : Text
  value : Text

def others (made : List Setting) (object : Nat) (p : Place) : List Setting :=
  made.filter fun m => ¬ (m.object = object ∧ m.subsys = p.subsys ∧ m.key = p.key)

def afterCall (made : List Setting) : Call → List Setting
  | .set object p value => ⟨object, p.subsys, p.key, value⟩ :: others made object p
  | .clear object p => others made object p

/-- The settings that have been made and not since been cleared, the newest first. -/
def inForce (calls : List Call) : List Setting := calls.foldl afterCall []

def newest (made : List Setting) (subsys key : Text) : Option Text :=
  (made.find? fun m => m.subsys = subsys ∧ m.key = key).map Setting.value

/-- The value most recently set and not since cleared, by any object. -/
def valueInForce (calls : List Call) (subsys key : Text) : Option Text :=
  newest (inForce calls) subsys key

def ownValue (object : Nat) (calls : List Call) (subsys key : Text) : Option Text :=
  newest ((inForce calls).filter (·.object = object)) subsys key

/-- What a reader should find: the value in force, or else the value in the initial text. -/
def expected (text : Text) (calls : List Call) (subsys key : Text) : Option Text :=
  (valueInForce calls subsys key).or (effective text subsys key)

end ZbkcTasks.VstartConf
