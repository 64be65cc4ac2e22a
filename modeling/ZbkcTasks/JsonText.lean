import ZbkcTasks.PyValue

/-! A reader of JSON that takes a text one character at a time, with a stack of what is open. It accepts
what Python's `json` accepts, so also `NaN` and `Infinity`. -/

/-- A number is given by its literal, and a string by its codes, where an escape stands for one. -/
inductive JsonAtom
  | null
  | bool (b : Bool)
  | number (literal : List Char)
  | str (codes : List Nat)

inductive Json
  | atom (a : JsonAtom)
  | list (xs : List Json)
  | dict (items : List (List Nat × Json))

namespace Json

def isSpace (c : Char) : Bool := [' ', '\t', '\n', '\r'].contains c

/-- What is open around a place: a list, a dictionary before a key, or one before the value of a key. -/
inductive Frame
  | list (xs : List Json)
  | dict (items : List (List Nat × Json))
  | item (items : List (List Nat × Json)) (key : List Nat)

/-- How much of a number has been read. -/
inductive Part
  | none | sign | zero | int | point | fraction | exponent | exponentSign | power
  deriving DecidableEq

inductive Place
  /-- A value or a key is to come, or the end of what has just been opened. -/
  | next (opened : Bool)
  | string (codes : List Nat)
  | escape (codes : List Nat)
  | hex (codes : List Nat) (code left : Nat)
  | colon (items : List (List Nat × Json)) (key : List Nat)
  | word (rest : List Char) (a : JsonAtom)
  | number (literal : List Char) (part : Part)
  | after (v : Json)

structure State where
  stack : List Frame
  place : Place

def Part.next (part : Part) (c : Char) : Option Part :=
  if c.isDigit then
    match part with
    | .none | .sign => some (if c = '0' then .zero else .int)
    | .zero => .none
    | .int => some .int
    | .point | .fraction => some .fraction
    | .exponent | .exponentSign | .power => some .power
  else
    match part, c with
    | .none, '-' => some .sign
    | .zero, '.' | .int, '.' => some .point
    | .zero, 'e' | .int, 'e' | .fraction, 'e' | .zero, 'E' | .int, 'E' | .fraction, 'E' => some .exponent
    | .exponent, '+' | .exponent, '-' => some .exponentSign
    | _, _ => .none

def Part.complete (part : Part) : Bool := [.zero, .int, .fraction, .power].contains part

def escaped : Char → Option Nat
  | '"' => some 34
  | '\\' => some 92
  | '/' => some 47
  | 'b' => some 8
  | 'f' => some 12
  | 'n' => some 10
  | 'r' => some 13
  | 't' => some 9
  | _ => none

def hexDigit (c : Char) : Option Nat :=
  if c.isDigit then some (c.toNat - 48)
  else if 'a' ≤ c ∧ c ≤ 'f' then some (c.toNat - 87)
  else if 'A' ≤ c ∧ c ≤ 'F' then some (c.toNat - 55)
  else none

/-- The character that a value or a key starts with, or that closes what has just been opened. -/
def begin (stack : List Frame) (opened : Bool) (c : Char) : Option State :=
  match stack, c with
  | stack, '"' => some ⟨stack, .string []⟩
  | .dict items :: outer, c => if opened ∧ c = '}' then some ⟨outer, .after (.dict items)⟩ else none
  | .list xs :: outer, ']' => if opened then some ⟨outer, .after (.list xs)⟩ else none
  | stack, '[' => some ⟨.list [] :: stack, .next true⟩
  | stack, '{' => some ⟨.dict [] :: stack, .next true⟩
  | stack, 'n' => some ⟨stack, .word "ull".toList .null⟩
  | stack, 't' => some ⟨stack, .word "rue".toList (.bool true)⟩
  | stack, 'f' => some ⟨stack, .word "alse".toList (.bool false)⟩
  | stack, 'N' => some ⟨stack, .word "aN".toList (.number "NaN".toList)⟩
  | stack, 'I' => some ⟨stack, .word "nfinity".toList (.number "Infinity".toList)⟩
  | stack, c => (Part.none.next c).map fun part => ⟨stack, .number [c] part⟩

/-- A string in a dictionary is a key, unless it is the value of one. -/
def endString (stack : List Frame) (codes : List Nat) : State :=
  match stack with
  | .dict items :: outer => ⟨outer, .colon items codes⟩
  | stack => ⟨stack, .after (.atom (.str codes))⟩

def proceed (stack : List Frame) (v : Json) (c : Char) : Option State :=
  if isSpace c then some ⟨stack, .after v⟩
  else
    match stack, c with
    | .list xs :: outer, ',' => some ⟨.list (xs ++ [v]) :: outer, .next false⟩
    | .list xs :: outer, ']' => some ⟨outer, .after (.list (xs ++ [v]))⟩
    | .item items key :: outer, ',' => some ⟨.dict (setItem items key v) :: outer, .next false⟩
    | .item items key :: outer, '}' => some ⟨outer, .after (.dict (setItem items key v))⟩
    | _, _ => none

def step : State → Char → Option State
  | ⟨stack, .next opened⟩, c => if isSpace c then some ⟨stack, .next opened⟩ else begin stack opened c
  | ⟨stack, .string codes⟩, c =>
      if c = '"' then some (endString stack codes)
      else if c = '\\' then some ⟨stack, .escape codes⟩
      else if c.toNat < 32 then none
      else some ⟨stack, .string (codes ++ [c.toNat])⟩
  | ⟨stack, .escape codes⟩, c =>
      if c = 'u' then some ⟨stack, .hex codes 0 4⟩
      else (escaped c).map fun code => ⟨stack, .string (codes ++ [code])⟩
  | ⟨stack, .hex codes code left⟩, c => (hexDigit c).map fun digit =>
      if left = 1 then ⟨stack, .string (codes ++ [16 * code + digit])⟩
      else ⟨stack, .hex codes (16 * code + digit) (left - 1)⟩
  | ⟨stack, .colon items key⟩, c =>
      if isSpace c then some ⟨stack, .colon items key⟩
      else if c = ':' then some ⟨.item items key :: stack, .next false⟩
      else none
  | ⟨stack, .word rest a⟩, c =>
      if rest = [c] then some ⟨stack, .after (.atom a)⟩
      else if rest.head? = some c then some ⟨stack, .word rest.tail a⟩
      else none
  | ⟨stack, .number literal part⟩, c =>
      match part.next c with
      | some part => some ⟨stack, .number (literal ++ [c]) part⟩
      | none =>
          if part.complete then proceed stack (.atom (.number literal)) c
          else if part = .sign ∧ c = 'I' then
            some ⟨stack, .word "nfinity".toList (.number "-Infinity".toList)⟩
          else none
  | ⟨stack, .after v⟩, c => proceed stack v c

def finish : State → Option Json
  | ⟨[], .after v⟩ => some v
  | ⟨[], .number literal part⟩ => if part.complete then some (.atom (.number literal)) else none
  | _ => none

def start : State := ⟨[], .next false⟩

def read (text : List Char) : Option Json := (text.foldlM step start).bind finish

variable {c : Char} {stack outer : List Frame} {opened : Bool} {v : Json} {state : State}

/-! ### What may stand before a text -/

variable {p : List Char}

theorem foldlM_spaces (hp : ∀ c ∈ p, isSpace c = true) : p.foldlM step start = some start := by
  induction p with
  | nil => rfl
  | cons c p ih =>
    obtain ⟨hc, hp⟩ := List.forall_mem_cons.mp hp
    have hstep : step start c = some start := if_pos hc
    rw [List.foldlM_cons, hstep]
    exact ih hp

theorem begin_next {b : Bool} (h : begin outer b c = some ⟨stack, .next opened⟩) :
    ∃ frame, stack = frame :: outer := by
  revert h
  fun_cases begin outer b c <;> grind [Option.map_eq_some_iff]

theorem proceed_next (h : proceed outer v c = some ⟨stack, .next opened⟩) :
    stack ≠ [] ∧ opened = false := by
  revert h
  fun_cases proceed outer v c <;> grind

theorem endString_ne_next {codes : List Nat} : endString outer codes ≠ ⟨stack, .next opened⟩ := by
  fun_cases endString outer codes <;> nofun

/-- A value or a key comes next behind white space, and behind a character that leaves something open. -/
theorem step_next (h : step state c = some ⟨stack, .next opened⟩) :
    (state = ⟨stack, .next opened⟩ ∧ isSpace c = true) ∨
      ∃ frame outer, stack = frame :: outer ∧ (opened = true → ∃ b, state = ⟨outer, .next b⟩) := by
  obtain ⟨outer, place⟩ := state
  have hproceed : ∀ {v}, proceed outer v c = some ⟨stack, .next opened⟩ →
      ∃ frame outer', stack = frame :: outer' ∧
        (opened = true → ∃ b, State.mk outer place = ⟨outer', .next b⟩) := by
    intro v h
    obtain ⟨hne, rfl⟩ := proceed_next h
    obtain ⟨frame, outer', rfl⟩ := List.exists_cons_of_ne_nil hne
    exact ⟨frame, outer', rfl, nofun⟩
  cases place with
  | next b =>
    by_cases hc : isSpace c = true
    · exact .inl ⟨Option.some.inj ((if_pos hc).symm.trans h), hc⟩
    · obtain ⟨frame, rfl⟩ := begin_next ((if_neg hc).symm.trans h)
      exact .inr ⟨frame, outer, rfl, fun _ => ⟨b, rfl⟩⟩
  | after v => exact .inr (hproceed h)
  | number literal part =>
    rw [step] at h
    split at h
    · cases h
    · split_ifs at h
      · exact .inr (hproceed h)
      · cases h
  | colon items key =>
    rw [step] at h
    split_ifs at h
    · cases h
    · cases h
      exact .inr ⟨_, _, rfl, nofun⟩
  | string codes =>
    rw [step] at h
    split_ifs at h
    · exact absurd (Option.some.inj h) endString_ne_next
    · cases h
    · cases h
  | escape codes =>
    rw [step] at h
    split_ifs at h
    · cases h
    · obtain ⟨_, -, hstate⟩ := Option.map_eq_some_iff.mp h
      cases hstate
  | hex codes code left =>
    obtain ⟨digit, -, hstate⟩ := Option.map_eq_some_iff.mp h
    split_ifs at hstate <;> cases hstate
  | word rest a =>
    rw [step] at h
    split_ifs at h <;> cases h

theorem spaces_of_foldlM (h : p.foldlM step state = some ⟨[], .next opened⟩) :
    state = ⟨[], .next opened⟩ ∧ ∀ c ∈ p, isSpace c = true := by
  induction p generalizing state with
  | nil => exact ⟨Option.some.inj h, nofun⟩
  | cons c p ih =>
    rw [List.foldlM_cons] at h
    obtain ⟨state', hstep, hrest⟩ := Option.bind_eq_some_iff.mp h
    obtain ⟨rfl, hp⟩ := ih hrest
    rcases step_next hstep with ⟨rfl, hc⟩ | ⟨frame, outer, hnil, -⟩
    · exact ⟨rfl, List.forall_mem_cons.mpr ⟨hc, hp⟩⟩
    · cases hnil

theorem finish_eq_list {xs : List Json} (h : finish state = some (.list xs)) :
    state = ⟨[], .after (.list xs)⟩ := by
  revert h
  fun_cases finish state <;> simp

theorem proceed_ne_nil : proceed stack v ']' ≠ some ⟨[], .after (.list [])⟩ := by
  rcases stack with _ | ⟨_ | _ | _, outer⟩
  · nofun
  · simp [proceed, isSpace]
  · nofun
  · nofun

theorem step_close (h : step state ']' = some ⟨[], .after (.list [])⟩) :
    state = ⟨[.list []], .next true⟩ := by
  obtain ⟨stack, place⟩ := state
  cases place with
  | next b =>
    rcases stack with _ | ⟨_ | _ | _, outer⟩
    · cases h
    · cases b <;> cases h
      rfl
    · cases b <;> cases h
    · cases h
  | after v => exact absurd h proceed_ne_nil
  | number literal part =>
    rw [step] at h
    split at h
    · cases h
    · split_ifs at h
      · exact absurd h proceed_ne_nil
      · cases h
  | colon | string | escape | hex => cases h
  | word rest a =>
    rw [step] at h
    split_ifs at h <;> cases h

theorem spaces_of_read_nil (h : read (p ++ ['[', ']']) = some (.list [])) : ∀ c ∈ p, isSpace c = true := by
  obtain ⟨state, hrun, hfinish⟩ := Option.bind_eq_some_iff.mp h
  rw [finish_eq_list hfinish, List.foldlM_append] at hrun
  obtain ⟨state1, hp, hlast⟩ := Option.bind_eq_some_iff.mp hrun
  obtain ⟨state2, hopen, hlast⟩ := Option.bind_eq_some_iff.mp hlast
  obtain ⟨state3, hclose, hlast⟩ := Option.bind_eq_some_iff.mp hlast
  cases hlast
  rw [step_close hclose] at hopen
  rcases step_next hopen with ⟨-, hspace⟩ | ⟨frame, outer, hstack, hbefore⟩
  · cases hspace
  · cases hstack
    obtain ⟨b, rfl⟩ := hbefore rfl
    exact (spaces_of_foldlM hp).2

/-- **White space.** It is all that may stand before every text without changing what is read. -/
theorem read_append_iff :
    (∀ d v, read d = some v → read (p ++ d) = some v) ↔ ∀ c ∈ p, isSpace c = true := by
  constructor
  · intro h
    exact spaces_of_read_nil (h ['[', ']'] (.list []) rfl)
  · intro hp d v hd
    rw [read, List.foldlM_append, foldlM_spaces hp]
    exact hd

example : read "[-1.5e3, \"a\\n\", [null ]]".toList =
    some (.list [.atom (.number "-1.5e3".toList), .atom (.str [97, 10]), .list [.atom .null]]) := rfl

end Json
