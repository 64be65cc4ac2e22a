import ZbkcTasks.VstartConf

/-! The search for an earlier line to comment out. A name without a newline is never matched across one,
so a text that ends with a newline can be searched apart from what is appended to it. -/

namespace ZbkcTasks.VstartConf

open List Option SectionMap TextLines

/-! ### Names -/

theorem matchName_append_name (n m text : Text) : matchName (n ++ m) text =
      (matchName n text).bind fun a => (matchName m a.2).map (Prod.map (a.1 ++ ·) id) := by
  induction n generalizing text with
  | nil => exact map_id'.symm
  | cons p n ih =>
    cases text with
    | nil => rfl
    | cons c text =>
      rw [cons_append, matchName, matchName]
      split
      · rw [ih, map_bind, bind_map]
        simp only [Function.comp_def, Option.map_map]
        rfl
      · rfl

variable {name text rest key t : Text}

theorem matchName_line (hname : '\n' ∉ name) (t rest : Text) :
    matchName name (t ++ '\n' :: rest) = (matchName name t).map (Prod.map id (· ++ '\n' :: rest)) := by
  induction name generalizing t with
  | nil => rfl
  | cons p name ih =>
    rw [mem_cons, not_or] at hname
    cases t with
    | nil => simp [matchName, Ne.symm hname.1]
    | cons c t =>
      rw [cons_append, matchName, matchName, ih hname.2]
      split
      · rw [Option.map_map, Option.map_map]
        rfl
      · rfl

/-- A word that a name matches: it has the characters of the name, any other for a dot. -/
def Fits (name word : Text) : Prop := List.Forall₂ (fun p c => p = c ∨ p = '.' ∧ c ≠ '\n') name word

theorem matchName_eq_some_iff {word : Text} :
    matchName name text = some (word, rest) ↔ Fits name word ∧ text = word ++ rest := by
  induction name generalizing text word with
  | nil =>
    rw [matchName, Fits, List.forall₂_nil_left_iff, some.injEq, Prod.mk.injEq]
    constructor
    all_goals
      rintro ⟨rfl, rfl⟩
      exact ⟨rfl, rfl⟩
  | cons p name ih =>
    cases text with
    | nil =>
      refine ⟨nofun, ?_⟩
      rintro ⟨hfits, htext⟩
      rw [(append_eq_nil_iff.mp htext.symm).1] at hfits
      cases hfits
    | cons c text =>
      rw [matchName]
      constructor
      · intro h
        split at h
        · rename_i hc
          obtain ⟨⟨word', rest'⟩, hm, heq⟩ := map_eq_some_iff.mp h
          cases heq
          obtain ⟨hfits, rfl⟩ := ih.mp hm
          exact ⟨.cons hc hfits, rfl⟩
        · cases h
      · rintro ⟨_ | ⟨hc, hfits⟩, htext⟩
        rw [cons_append, List.cons.injEq] at htext
        obtain ⟨rfl, rfl⟩ := htext
        rw [if_pos hc, ih.mpr ⟨hfits, rfl⟩]
        rfl

variable {m : Text × Text} {lineStart : Bool}

theorem matchName_eq (h : matchName name text = some m) : text = m.1 ++ m.2 :=
  (matchName_eq_some_iff.mp h).2

theorem Fits.eq_of_no_dot {word : Text} (h : Fits name word) (hdot : '.' ∉ name) : word = name := by
  induction h with
  | nil => rfl
  | cons hc _ ih =>
    rw [mem_cons, not_or] at hdot
    rw [ih hdot.2, hc.resolve_right fun hp => hdot.1 hp.1.symm]

theorem matchName_self (hdot : '.' ∉ name) (h : matchName name text = some m) : m.1 = name :=
  (matchName_eq_some_iff.mp h).1.eq_of_no_dot hdot

theorem matchName_append (h : matchName name text = some m) (rest : Text) :
    matchName name (text ++ rest) = some (m.1, m.2 ++ rest) := by
  obtain ⟨hfits, rfl⟩ := matchName_eq_some_iff.mp h
  exact matchName_eq_some_iff.mpr ⟨hfits, append_assoc _ _ _⟩

/-! ### Sections -/

def sectionText (subsys : Text) (lineStart : Bool) (text : Text) : Option Text :=
  (findSection subsys lineStart text).map Prod.snd

theorem sectionText_cons (subsys : Text) (lineStart : Bool) (c : Char) (text : Text) :
    sectionText subsys lineStart (c :: text) =
      (if lineStart then sectionAt subsys (c :: text) else none).or
        (sectionText subsys (c = '\n') text) := by
  rw [sectionText, findSection, Option.map_or, Option.map_map, Option.map_map, sectionText]
  simp [Function.comp_def]

theorem findExisting_eq_none_iff {subsys : Text} : findExisting subsys key text = none ↔
    ∀ s, sectionText subsys true text = some s → findKey key true s = none := by
  rw [findExisting, sectionText]
  cases findSection subsys true text with
  | none | some => simp

theorem commentOut_of_none {subsys : Text} (h : findExisting subsys key text = none) :
    commentOut subsys key text = text := by
  rw [commentOut, h, elim_none]

theorem sectionAt_line {subsys : Text} (hsub : '\n' ∉ subsys) (t rest : Text) :
    sectionAt subsys (t ++ '\n' :: rest) =
      (matchName (headerLine subsys ++ ['\n']) (t ++ ['\n'])).map fun m =>
        m.1 ++ (m.2 ++ rest).takeWhile (· ≠ '[') := by
  have hheader : '\n' ∉ headerLine subsys := by simpa [headerLine] using hsub
  rw [sectionAt, matchName_append_name, matchName_append_name, matchName_line hheader,
    matchName_line hheader]
  cases matchName (headerLine subsys) t with
  | none => rfl
  | some m =>
    -- what is left of the line must be empty
    rcases m with ⟨w, r⟩
    cases r with
    | nil => simp [matchName]
    | cons c r =>
      by_cases hc : '\n' = c
      · subst hc
        simp [matchName]
      · simp [matchName, hc]

theorem sectionText_append {subsys : Text} (hsub : '\n' ∉ subsys) {lineStart : Bool} {t rest s : Text}
    (h : sectionText subsys lineStart (t ++ '\n' :: rest) = some s) :
    (∃ s0, sectionText subsys lineStart (t ++ ['\n']) = some s0 ∧
      (s = s0 ∨ s = s0 ++ rest.takeWhile (· ≠ '['))) ∨ sectionText subsys true rest = some s := by
  induction t generalizing lineStart with
  | nil =>
    have hnone : sectionAt subsys ('\n' :: rest) = none := by simp [sectionAt, headerLine, matchName]
    rw [nil_append, sectionText_cons, hnone, ite_self, none_or] at h
    exact .inr (by simpa using h)
  | cons c t ih =>
    rw [cons_append, sectionText_cons] at h
    rw [cons_append, sectionText_cons]
    by_cases hstart : lineStart = true
    · rw [if_pos hstart] at h ⊢
      rw [← cons_append, sectionAt_line hsub] at h
      rw [sectionAt]
      cases hm : matchName (headerLine subsys ++ ['\n']) (c :: t ++ ['\n']) with
      | none =>
        rw [hm, map_none, none_or] at h
        rw [← cons_append, hm, map_none, none_or]
        exact ih h
      | some m =>
        rw [hm, map_some, some_or, some.injEq] at h
        rw [← cons_append, hm, map_some, some_or]
        refine .inl ⟨_, rfl, ?_⟩
        rw [← h, takeWhile_append]
        split
        · rename_i hall
          have hself : m.2.takeWhile (· ≠ '[') = m.2 :=
            ( takeWhile_prefix _).eq_of_length hall
          rw [hself]
          exact .inr (append_assoc _ _ _).symm
        · exact .inl rfl
    · rw [if_neg hstart, none_or] at h ⊢
      exact ih h

/-! ### Keys -/

theorem startsWithKey_line (hkey : '\n' ∉ key) (t rest : Text) :
    startsWithKey key (t ++ '\n' :: rest) = startsWithKey key t := by
  have hname : '\n' ∉ key ++ " =".toList := by simpa using hkey
  rw [startsWithKey, matchName_line hname, isSome_map, startsWithKey]

theorem startsWithKey_append (h : startsWithKey key t = true) (rest : Text) :
    startsWithKey key (t ++ rest) = true := by
  obtain ⟨m, hm⟩ := isSome_iff_exists.mp h
  rw [startsWithKey, matchName_append hm, isSome_some]

theorem startsWithKey_of_no_equals (ht : '=' ∉ t) (key : Text) : startsWithKey key t = false := by
  by_contra hstart
  obtain ⟨m, hm⟩ := isSome_iff_exists.mp (Bool.not_eq_false _ ▸ hstart)
  rw [matchName_append_name] at hm
  obtain ⟨a, ha, hrest⟩ := bind_eq_some_iff.mp hm
  obtain ⟨b, hb, -⟩ := map_eq_some_iff.mp hrest
  have hword : b.1 = " =".toList := matchName_self (by decide) hb
  rw [matchName_eq ha, matchName_eq hb, hword] at ht
  simp at ht

theorem startsWithKey_keyLine {k v : Text} (hdot : '.' ∉ key) (hkey : '=' ∉ key) (hk : '=' ∉ k)
    (h : startsWithKey key (k ++ (" = ".toList ++ v)) = true) : k = key := by
  obtain ⟨m, hm⟩ := isSome_iff_exists.mp h
  have hword : m.1 = key ++ " =".toList := matchName_self (by simpa using hdot) hm
  have htext := matchName_eq hm
  rw [hword] at htext
  have hcut : (k ++ [' ']) ++ '=' :: (' ' :: v) = (key ++ [' ']) ++ '=' :: m.2 := by
    simpa using htext
  have hsame := congrArg (List.takeWhile (· ≠ '=')) hcut
  rw [takeWhile_append_sep (by simpa using hk), takeWhile_append_sep (by simpa using hkey)] at hsame
  exact append_cancel_right hsame

theorem matchKey_append (h : matchKey key t ≠ none) (rest : Text) : matchKey key (t ++ rest) ≠ none := by
  induction t with
  | nil => exact absurd rfl h
  | cons c t ih =>
    rw [cons_append, matchKey, ne_eq, or_eq_none_iff, not_and_or, map_eq_none_iff]
    rw [matchKey, ne_eq, or_eq_none_iff, not_and_or, map_eq_none_iff] at h
    rcases h with h | h
    · refine .inl ?_
      by_cases hc : isBlank c = true
      · rw [if_pos hc] at h ⊢
        exact ih h
      · exact absurd (if_neg hc) h
    · refine .inr ?_
      by_cases hc : c ≠ '#' ∧ startsWithKey key t = true
      · rw [if_pos ⟨hc.1, startsWithKey_append hc.2 rest⟩]
        simp
      · exact absurd (if_neg hc) h

theorem findKey_cons_eq_none_iff {c : Char} : findKey key lineStart (c :: text) = none ↔
      (lineStart = true → matchKey key (c :: text) = none) ∧ findKey key (c = '\n') text = none := by
  rw [findKey, or_eq_none_iff, map_eq_none_iff, ite_eq_right_iff]

theorem findKey_of_append (h : findKey key lineStart (t ++ rest) = none) :
    findKey key lineStart t = none := by
  induction t generalizing lineStart with
  | nil => rfl
  | cons c t ih =>
    obtain ⟨hhead, htail⟩ := findKey_cons_eq_none_iff.mp h
    refine findKey_cons_eq_none_iff.mpr ⟨fun hstart => ?_, ih htail⟩
    by_contra hmatch
    exact matchKey_append hmatch rest (hhead hstart)

theorem matchKey_snoc (hkey : '\n' ∉ key) (h : matchKey key t = none) :
    matchKey key (t ++ ['\n']) = none := by
  have hempty : startsWithKey key [] = false := startsWithKey_of_no_equals not_mem_nil key
  induction t with
  | nil => simp [matchKey, hempty]
  | cons c t ih =>
    rw [matchKey, or_eq_none_iff, map_eq_none_iff] at h
    rw [cons_append, matchKey, or_eq_none_iff, map_eq_none_iff,
      startsWithKey_line hkey]
    refine ⟨?_, h.2⟩
    by_cases hc : isBlank c = true
    · rw [if_pos hc] at h ⊢
      exact ih h.1
    · exact if_neg hc

theorem findKey_snoc (hkey : '\n' ∉ key) (h : findKey key lineStart t = none) :
    findKey key lineStart (t ++ ['\n']) = none := by
  induction t generalizing lineStart with
  | nil =>
    exact findKey_cons_eq_none_iff.mpr
      ⟨fun _ => matchKey_snoc hkey (t := []) rfl, rfl⟩
  | cons c t ih =>
    obtain ⟨hhead, htail⟩ := findKey_cons_eq_none_iff.mp h
    exact findKey_cons_eq_none_iff.mpr
      ⟨fun hstart => matchKey_snoc hkey (hhead hstart), ih htail⟩

theorem matchKey_line (hkey : '\n' ∉ key) {c : Char} (hc : ¬ isBlank c = true) {l : Text}
    (hl : startsWithKey key l = false) (rest : Text) : matchKey key (c :: l ++ '\n' :: rest) = none := by
  rw [cons_append, matchKey, if_neg hc, startsWithKey_line hkey, hl]
  simp

theorem findKey_line {l : Text} (hl : '\n' ∉ l) (hmatch : matchKey key (l ++ '\n' :: rest) = none)
    (h : findKey key true rest = none) : findKey key true (l ++ '\n' :: rest) = none := by
  have hnext : ∀ l' : Text, '\n' ∉ l' → findKey key false (l' ++ '\n' :: rest) = none := by
    intro l' hl'
    induction l' with
    | nil => exact findKey_cons_eq_none_iff.mpr ⟨nofun, by simpa using h⟩
    | cons c l' ih =>
      rw [mem_cons, not_or] at hl'
      refine findKey_cons_eq_none_iff.mpr ⟨nofun, ?_⟩
      rw [decide_eq_false (Ne.symm hl'.1)]
      exact ih hl'.2
  cases l with
  | nil => exact findKey_cons_eq_none_iff.mpr ⟨fun _ => hmatch, by simpa using h⟩
  | cons c l =>
    rw [mem_cons, not_or] at hl
    refine findKey_cons_eq_none_iff.mpr ⟨fun _ => hmatch, ?_⟩
    rw [decide_eq_false (Ne.symm hl.1)]
    exact hnext l hl.2

theorem findKey_sectionText {subsys s : Text} (h : findKey key lineStart text = none)
    (hs : sectionText subsys lineStart text = some s) : findKey key true s = none := by
  induction text generalizing lineStart with
  | nil => cases hs
  | cons c text ih =>
    rw [sectionText_cons, or_eq_some_iff] at hs
    rcases hs with hs | ⟨-, hs⟩
    · by_cases hstart : lineStart = true
      · rw [if_pos hstart] at hs
        obtain ⟨m, hm, rfl⟩ := map_eq_some_iff.mp hs
        rw [hstart, matchName_eq hm, ← takeWhile_append_dropWhile (p := (· ≠ '[')) (l := m.2),
          ← append_assoc] at h
        exact findKey_of_append h
      · rw [if_neg hstart] at hs
        cases hs
    · exact ih (findKey_cons_eq_none_iff.mp h).2 hs

/-- **Searching in two parts.** Where nothing is found in the text and in what is appended to it, nothing
is found in the whole. -/
theorem findExisting_append {subsys key : Text} (hsub : '\n' ∉ subsys) (hkey : '\n' ∉ key) {t rest : Text}
    (hfirst : findExisting subsys key (t ++ ['\n']) = none) (hrest : findKey key true rest = none)
    (hhead : rest.takeWhile (· ≠ '[') = [] ∨ rest.takeWhile (· ≠ '[') = ['\n']) :
    findExisting subsys key (t ++ '\n' :: rest) = none := by
  rw [findExisting_eq_none_iff] at hfirst ⊢
  intro s hs
  rcases sectionText_append hsub hs with ⟨s0, hs0, hsame | hmore⟩ | hlater
  · rw [hsame]
    exact hfirst s0 hs0
  · rw [hmore]
    rcases hhead with hnil | hnewline
    · rw [hnil, append_nil]
      exact hfirst s0 hs0
    · rw [hnewline]
      exact findKey_snoc hkey (hfirst s0 hs0)
  · exact findKey_sectionText hrest hlater

end ZbkcTasks.VstartConf
