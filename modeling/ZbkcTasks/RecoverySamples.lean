import Mathlib.Data.List.AList
import Mathlib.Data.List.Sort
import Mathlib.Tactic.Linarith
import ZbkcTasks.JsonText
import ZbkcTasks.PyText

/-! The samples of `tasks/recovery_bench.py`. A type gets its entry before the latency is looked at, so a
type without a usable one has an empty list. `float` also takes infinities and NaN, which `list.sort` puts
anywhere. -/

namespace ZbkcTasks.RecoverySamples

open List

abbrev Text := List Char

abbrev Key := List Nat

def key (name : String) : Key := name.toList.map Char.toNat

/-- The input, in which every type is a string. -/
structure Input where
  text : Text
  types : ∀ line ∈ text.splitOn '\n', ∀ items, Json.read line = some (.dict items) →
    ∀ v ∈ items.lookup (key "type"), ∃ t, v = .atom (.str t)

/-- A value of `float`. A number is not rounded. -/
inductive PyFloat
  | number (q : ℚ)
  | infinity (negative : Bool)
  | nan

def PyFloat.neg : PyFloat → PyFloat
  | .number q => .number (-q)
  | .infinity negative => .infinity !negative
  | .nan => .nan

/-- `(a + b) / 2`. -/
def PyFloat.mean : PyFloat → PyFloat → PyFloat
  | .number a, .number b => .number ((a + b) / 2)
  | .infinity a, .infinity b => if a = b then .infinity a else .nan
  | .infinity a, .number _ | .number _, .infinity a => .infinity a
  | .nan, _ | _, .nan => .nan

/-! ### `float` -/

def significand (text : Text) : Option ℚ :=
  let whole := text.takeWhile Char.isDigit
  match text.dropWhile Char.isDigit with
  | [] => if whole = [] then none else some (Nat.ofDigitChars 10 whole 0)
  | '.' :: fraction =>
      if isDigits (whole ++ fraction) then
        some (Nat.ofDigitChars 10 (whole ++ fraction) 0 / 10 ^ fraction.length)
      else none
  | _ => none

def exponent : Text → Option Int
  | '-' :: digits => (intOfDigits digits (-1)).toOption
  | '+' :: digits => (intOfDigits digits 1).toOption
  | digits => (intOfDigits digits 1).toOption

def decimal (text : Text) : Option ℚ :=
  let number := text.takeWhile fun c => c.toLower ≠ 'e'
  match text.dropWhile fun c => c.toLower ≠ 'e' with
  | [] => significand number
  | _ :: power => do return (← significand number) * 10 ^ (← exponent power)

def unsigned (text : Text) : Option PyFloat :=
  let word := text.map Char.toLower
  if word = "nan".toList then some .nan
  else if word = "inf".toList ∨ word = "infinity".toList then some (.infinity false)
  else (decimal text).map .number

def floatOfText (text : Text) : Option PyFloat :=
  match strip text with
  | '-' :: rest => (unsigned rest).map PyFloat.neg
  | '+' :: rest => unsigned rest
  | rest => unsigned rest

/-- The codes that Unicode takes for white space. -/
def spaceCodes : List Nat :=
  [9, 10, 11, 12, 13, 28, 29, 30, 31, 32, 133, 160, 5760, 6158] ++ List.range' 8192 11 ++
    [8232, 8233, 8239, 8287, 12288]

/-- What the task takes from Python: digits of other scripts, and `list.sort`, which with NaN only keeps
the elements. -/
structure Python where
  digitOf : Nat → Option Char
  sort : List PyFloat → List PyFloat
  sort_perm : ∀ xs, (sort xs).Perm xs
  sort_numbers : ∀ qs : List ℚ, sort (qs.map .number) = (qs.insertionSort (· ≤ ·)).map .number

section Samples

variable (py : Python)

/-- The character that a code of a string is read as. -/
def encodeDecimal (code : Nat) : Option Char :=
  if code ∈ spaceCodes then some ' '
  else if 0 < code ∧ code < 256 then some (Char.ofNat code)
  else py.digitOf code

/-- `float(value)`, or nothing where it raises. -/
def float : Json → Option PyFloat
  | .atom (.bool b) => some (.number (if b then 1 else 0))
  | .atom (.number literal) => floatOfText literal
  | .atom (.str codes) => (codes.mapM (encodeDecimal py)).bind floatOfText
  | .atom .null | .list _ | .dict _ => none

/-- The type of the sample on a line and its latency, the one or both missing if getting them raises. -/
def sample (line : Text) : Option (Key × Option PyFloat) :=
  match Json.read line with
  | some (.dict items) =>
      match items.lookup (key "type") with
      | some (.atom (.str t)) => some (t, (items.lookup (key "latency")).bind (float py))
      | _ => none
  | _ => none

abbrev Latencies := AList fun _ : Key => List PyFloat

/-- The entry is made before the latency is looked at. -/
def put (lat : Latencies) : Key × Option PyFloat → Latencies
  | (type, latency) =>
      let samples := (lat.lookup type).getD []
      match latency with
      | none => lat.insert type samples
      | some x => lat.insert type (samples ++ [x])

def addSample (lat : Latencies) (line : Text) : Latencies :=
  match sample py line with
  | some s => put lat s
  | none => lat

/-- `samples[i]`. -/
def at? (samples : List PyFloat) (i : Nat) : Except PyError PyFloat :=
  match samples[i]? with
  | some x => .ok x
  | none => .error .indexError

/-- The two numbers that are reported. `int(num * 0.99)` is exact for as many samples as fit into a memory.
-/
def summary (samples : List PyFloat) : Except PyError (PyFloat × PyFloat) := do
  let samples := py.sort samples
  let num := samples.length
  let median ← if num % 2 = 1 then at? samples (num / 2)
    else do
      let a ← at? samples (num / 2)
      let b ← at? samples (num / 2 - 1)
      pure (a.mean b)
  let ninetyNine ← at? samples (num * 99 / 100)
  pure (median, ninetyNine)

def latencies (input : Text) : Latencies := (input.splitOn '\n').foldl (addSample py) ∅

def processSamples (input : Text) : Except PyError (List (Key × PyFloat × PyFloat)) :=
  (latencies py input).entries.mapM fun e => (summary py e.2).map fun report => (e.1, report)

def samplesOf (input : Text) : List (Key × Option PyFloat) := (input.splitOn '\n').filterMap (sample py)

def usable (input : Text) (type : Key) : List PyFloat :=
  (samplesOf py input).flatMap fun s => if s.1 = type then s.2.toList else []

end Samples

variable {py : Python} {samples : List PyFloat} {input : Text} {t : Key}

section Statistics

variable {s : List ℚ} {m : ℚ} {i : Nat}

theorem le_countP_le (hs : s.Pairwise (· ≤ ·)) (hi : i < s.length) (hm : s[i] ≤ m) :
    i + 1 ≤ s.countP fun x => x ≤ m := by
  have hall : ∀ x ∈ s.take (i + 1), decide (x ≤ m) = true := by
    intro x hx
    obtain ⟨j, hj, rfl⟩ := mem_take_iff_getElem.mp hx
    have hle : s[j] ≤ s[i] := by
      rcases Nat.eq_or_lt_of_le (show j ≤ i by omega) with rfl | hlt
      · exact le_rfl
      · exact pairwise_iff_getElem.mp hs j i _ hi hlt
    exact decide_eq_true (hle.trans hm)
  calc i + 1 = (s.take (i + 1)).length := by rw [length_take]; omega
    _ = (s.take (i + 1)).countP fun x => x ≤ m := (countP_eq_length.mpr hall).symm
    _ ≤ s.countP fun x => x ≤ m := (take_sublist _ _).countP_le

theorem le_countP_ge (hs : s.Pairwise (· ≤ ·)) (hi : i < s.length) (hm : m ≤ s[i]) :
    s.length - i ≤ s.countP fun x => m ≤ x := by
  have hall : ∀ x ∈ s.drop i, decide (m ≤ x) = true := by
    intro x hx
    obtain ⟨j, hj, rfl⟩ := mem_drop_iff_getElem.mp hx
    have hle : s[i] ≤ s[i + j] := by
      rcases Nat.eq_or_lt_of_le (show i ≤ i + j by omega) with heq | hlt
      · exact le_of_eq (by congr 1)
      · exact pairwise_iff_getElem.mp hs i (i + j) hi _ hlt
    exact decide_eq_true (hm.trans hle)
  calc s.length - i = (s.drop i).length := by rw [length_drop]
    _ = (s.drop i).countP fun x => m ≤ x := (countP_eq_length.mpr hall).symm
    _ ≤ s.countP fun x => m ≤ x := (drop_sublist _ _).countP_le

/-- What is to be reported of samples that are numbers. -/
structure Reports (samples : List ℚ) (median ninetyNine : ℚ) : Prop where
  low : samples.length ≤ 2 * samples.countP fun x => x ≤ median
  high : samples.length ≤ 2 * samples.countP fun x => median ≤ x
  position : (samples.insertionSort (· ≤ ·))[samples.length * 99 / 100]? = some ninetyNine

theorem at?_eq_ok (hi : i < samples.length) : at? samples i = .ok samples[i] := by
  rw [at?, getElem?_eq_getElem hi]

theorem at?_numbers (hi : i < s.length) : at? (s.map .number) i = .ok (.number s[i]) := by
  rw [at?_eq_ok (by rwa [length_map]), getElem_map]

theorem summary_numbers (py : Python) {qs : List ℚ} (hne : qs ≠ []) :
    ∃ m q, summary py (qs.map .number) = .ok (.number m, .number q) ∧ Reports qs m q := by
  set s := qs.insertionSort (· ≤ ·) with hs
  have hperm : s.Perm qs := perm_insertionSort _ _
  have hsorted : s.Pairwise (· ≤ ·) := pairwise_insertionSort _ _
  have hlength : s.length = qs.length := hperm.length_eq
  have hpos : 0 < qs.length := length_pos_iff.mpr hne
  have hhalf : s.length / 2 < s.length := by omega
  have hnine : s.length * 99 / 100 < s.length := by omega
  have hposition : s[qs.length * 99 / 100]? = some s[s.length * 99 / 100] := by
    rw [← hlength, getElem?_eq_getElem hnine]
  by_cases hodd : s.length % 2 = 1
  · refine ⟨s[s.length / 2], s[s.length * 99 / 100], ?_, ?_, ?_, hposition⟩
    · rw [summary, py.sort_numbers, ← hs, length_map, if_pos hodd, at?_numbers hhalf,
        at?_numbers hnine]
      rfl
    · have := le_countP_le hsorted hhalf le_rfl
      rw [← hperm.countP_eq]
      omega
    · have := le_countP_ge hsorted hhalf le_rfl
      rw [← hperm.countP_eq]
      omega
  · have hbefore : s.length / 2 - 1 < s.length := by omega
    have hle : s[s.length / 2 - 1] ≤ s[s.length / 2] :=
      pairwise_iff_getElem.mp hsorted _ _ hbefore hhalf (by omega)
    refine ⟨(s[s.length / 2] + s[s.length / 2 - 1]) / 2, s[s.length * 99 / 100], ?_, ?_, ?_, hposition⟩
    · rw [summary, py.sort_numbers, ← hs, length_map, if_neg hodd, at?_numbers hhalf,
        at?_numbers hbefore, at?_numbers hnine]
      rfl
    · have := le_countP_le hsorted hbefore (m := (s[s.length / 2] + s[s.length / 2 - 1]) / 2) (by linarith)
      rw [← hperm.countP_eq]
      omega
    · have := le_countP_ge hsorted hhalf (m := (s[s.length / 2] + s[s.length / 2 - 1]) / 2) (by linarith)
      rw [← hperm.countP_eq]
      omega

theorem summary_nil (py : Python) : summary py [] = .error .indexError := by
  rw [summary, (py.sort_perm []).eq_nil]
  rfl

theorem summary_ok_iff (py : Python) (samples : List PyFloat) :
    (∃ mq, summary py samples = .ok mq) ↔ samples ≠ [] := by
  constructor
  · rintro ⟨mq, h⟩ rfl
    rw [summary_nil] at h
    cases h
  · intro hne
    have hlength := (py.sort_perm samples).length_eq
    have hpos : 0 < samples.length := length_pos_iff.mpr hne
    have hhalf : (py.sort samples).length / 2 < (py.sort samples).length := by omega
    have hbefore : (py.sort samples).length / 2 - 1 < (py.sort samples).length := by omega
    have hnine : (py.sort samples).length * 99 / 100 < (py.sort samples).length := by omega
    rw [summary, at?_eq_ok hhalf, at?_eq_ok hbefore, at?_eq_ok hnine]
    split <;> exact ⟨_, rfl⟩

end Statistics

section Lines

theorem put_eq (lat : Latencies) (s : Key × Option PyFloat) :
    put lat s = lat.insert s.1 ((lat.lookup s.1).getD [] ++ s.2.toList) := by
  obtain ⟨type, _ | x⟩ := s
  · simp [put]
  · rfl

theorem lookup_foldl_put (ss : List (Key × Option PyFloat)) (lat : Latencies) (t : Key) :
    (ss.foldl put lat).lookup t =
      if t ∈ ss.map Prod.fst then
        some ((lat.lookup t).getD [] ++ ss.flatMap fun s => if s.1 = t then s.2.toList else [])
      else lat.lookup t := by
  induction ss generalizing lat with
  | nil => rfl
  | cons s ss ih =>
    rw [foldl_cons, ih, put_eq, map_cons, flatMap_cons]
    by_cases ht : s.1 = t
    · subst ht
      rw [AList.lookup_insert, if_pos mem_cons_self, if_pos rfl, Option.getD_some]
      split
      · rw [append_assoc]
      · next hnot =>
        have hnil : ss.flatMap (fun s' => if s'.1 = s.1 then s'.2.toList else []) = [] :=
          flatMap_eq_nil_iff.mpr fun s' hs' =>
            if_neg fun heq => hnot (mem_map.mpr ⟨s', hs', heq⟩)
        rw [hnil, append_nil]
    · rw [AList.lookup_insert_ne fun heq => ht heq.symm, if_neg ht, nil_append]
      simp only [mem_cons, Ne.symm ht, false_or]

theorem mem_latencies : ⟨t, samples⟩ ∈ (latencies py input).entries ↔
      t ∈ (samplesOf py input).map Prod.fst ∧ samples = usable py input t := by
  have hfold : latencies py input = (samplesOf py input).foldl put ∅ := by
    rw [latencies, samplesOf, foldl_filterMap]
    congr 1
    funext lat line
    rw [addSample]
    cases sample py line <;> rfl
  rw [← AList.mem_lookup_iff, Option.mem_def, hfold, lookup_foldl_put]
  split
  · next h => simp [h, usable, eq_comm]
  · next h => simp [h]

theorem mem_types_of_usable (h : usable py input t ≠ []) :
    t ∈ (samplesOf py input).map Prod.fst := by
  obtain ⟨x, hx⟩ := exists_mem_of_ne_nil _ h
  obtain ⟨s, hs, hx⟩ := mem_flatMap.mp hx
  split at hx
  · next heq => exact mem_map.mpr ⟨s, hs, heq⟩
  · exact absurd hx not_mem_nil

theorem mem_report {report : List (Key × PyFloat × PyFloat)} (h : processSamples py input = .ok report)
    {mq : PyFloat × PyFloat} :
    (t, mq) ∈ report ↔ summary py (usable py input t) = .ok mq := by
  have hmap := map_of_mapM_ok h
  have hmem : (t, mq) ∈ report ↔
      .ok (t, mq) ∈ report.map (.ok : _ → Except PyError (Key × PyFloat × PyFloat)) := by simp
  rw [hmem, ← hmap, mem_map]
  constructor
  · rintro ⟨⟨t', samples⟩, he, heq⟩
    cases hsummary : summary py samples with
    | error e =>
      rw [hsummary] at heq
      cases heq
    | ok mq' =>
      rw [hsummary] at heq
      obtain ⟨rfl, rfl⟩ := Prod.mk.inj (Except.ok.inj heq)
      rw [← (mem_latencies.mp he).2, hsummary]
  · intro hsummary
    have hne := (summary_ok_iff py _).mp ⟨mq, hsummary⟩
    exact ⟨⟨t, usable py input t⟩, mem_latencies.mpr ⟨mem_types_of_usable hne, rfl⟩,
      congrArg (Except.map fun report => (t, report)) hsummary⟩

theorem exists_report_iff (input : Text) : (∃ report, processSamples py input = .ok report) ↔
    ∀ t ∈ (samplesOf py input).map Prod.fst, usable py input t ≠ [] := by
  have hall := exists_mapM_ok_iff (fun e => (summary py e.2).map fun report => (e.1, report))
    (latencies py input).entries fun _ => True
  simp only [implies_true, and_true] at hall
  rw [processSamples, hall]
  have hmap : ∀ e : (_ : Key) × List PyFloat,
      (∃ y, ((summary py e.2).map fun report => (e.1, report)) = .ok y) ↔ e.2 ≠ [] := by
    intro e
    rw [← summary_ok_iff py]
    cases summary py e.2 <;> simp [Except.map]
  simp only [hmap]
  exact ⟨fun h t ht => h _ (mem_latencies.mpr ⟨ht, rfl⟩), fun h e he => by
    obtain ⟨ht, heq⟩ := mem_latencies.mp he
    exact heq ▸ h _ ht⟩

end Lines

/-- The task returns and reports the types with a usable latency, by their usable latencies only. -/
def Tolerates (py : Python) (input : Text) : Prop :=
  ∃ report, processSamples py input = .ok report ∧
    (∀ t, (∃ mq, (t, mq) ∈ report) ↔ usable py input t ≠ []) ∧
    (∀ t mq, (t, mq) ∈ report → ∃ qs m q, usable py input t = qs.map .number ∧
      mq = (.number m, .number q) ∧ Reports qs m q) ∧
    ∀ other otherReport, (∀ t, usable py other t = usable py input t) →
      processSamples py other = .ok otherReport → ∀ x, x ∈ otherReport ↔ x ∈ report

def typeOnly : Text := "\x7b\"type\": \"read\"\x7d".toList

end ZbkcTasks.RecoverySamples
