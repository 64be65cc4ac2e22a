import ZbkcTasks.PyText
import ZbkcTasks.TextLines

/-! `get_osd_status` of `tasks/zbkc_manager.py`. An OSD is in when ` in ` stands anywhere in its line of
`osd dump`; the grammar of the lines says why that is enough. -/

namespace ZbkcTasks.OsdStatus

open List TextLines

abbrev Text := List Char

def has (text : Text) (sub : String) : Bool := decide (sub.toList <:+: text)

/-- A daemon of `ctx.daemons`, and whether it was running when it was asked. -/
structure Daemon where
  id_ : Text
  running : Bool

structure Status where
  inOsds : List Int
  outOsds : List Int
  upOsds : List Int
  downOsds : List Int
  deadOsds : List Int
  liveOsds : List Int
  raw : List Text

def firstWord (words : List Text) : Except PyError Text := words.head?.elim (.error .indexError) .ok

def osdId (line : Text) : Except PyError Int := firstWord (words (line.drop 4)) >>= pyInt

def isOsdLine (line : Text) : Bool := "osd.".toList.isPrefixOf line && (has line "up" || has line "down")

def idsWith (word : String) (osdLines : List Text) : Except PyError (List Int) :=
  (osdLines.filter fun line => has line word).mapM osdId

/-- The daemons are gone through twice, and each time they are asked whether they are running. -/
def getOsdStatus (rawOsdStatus : Text) (daemons daemons' : List Daemon) : Except PyError Status := do
  let osdLines := (rawOsdStatus.splitOn '\n').filter isOsdLine
  let inOsds ← idsWith " in " osdLines
  let outOsds ← idsWith " out " osdLines
  let upOsds ← idsWith " up " osdLines
  let downOsds ← idsWith " down " osdLines
  let deadOsds ← (daemons.filter fun d => !d.running).mapM fun d => pyInt d.id_
  let liveOsds ← (daemons'.filter fun d => d.running).mapM fun d => pyInt d.id_
  return ⟨inOsds, outOsds, upOsds, downOsds, deadOsds, liveOsds, osdLines⟩

/-! ### The text of `osd dump` -/

def stateWords : List Text := ["in".toList, "out".toList, "up".toList, "down".toList]

structure Token where
  text : Text
  space_notMem : ' ' ∉ text
  newline_notMem : '\n' ∉ text
  plain : text ∉ stateWords

/-- The data of an OSD in its line. `gap` and `gap'` count further spaces. -/
structure OsdEntry where
  id : Nat
  isUp : Bool
  gap : Nat
  isIn : Bool
  gap' : Nat
  weight : Token
  upFrom : Nat
  upThru : Nat
  downAt : Nat
  cleanFrom : Nat
  cleanTo : Nat
  addrs : List Token
  flags : Token
  uuid : Token

namespace OsdEntry

variable (o : OsdEntry)

def upWord : Text := if o.isUp then "up".toList else "down".toList

def inWord : Text := if o.isIn then "in".toList else "out".toList

def interval : Text := '[' :: (numeral o.cleanFrom ++ ',' :: (numeral o.cleanTo ++ [')']))

def rest : List Text :=
  ["weight".toList, o.weight.text, "up_from".toList, numeral o.upFrom, "up_thru".toList, numeral o.upThru,
    "down_at".toList, numeral o.downAt, "last_clean_interval".toList, o.interval] ++
    o.addrs.map Token.text ++ [o.flags.text, o.uuid.text]

/-- The parts of the line between single spaces; further spaces make empty parts. -/
def parts : List Text :=
  ("osd.".toList ++ numeral o.id) :: o.upWord :: (List.replicate o.gap [] ++ o.inWord ::
    (List.replicate o.gap' [] ++ o.rest))

def line : Text := [' '].intercalate o.parts

end OsdEntry

inductive Line
  | header (text : Text) (h : ¬ "osd.".toList <+: text) (h' : '\n' ∉ text)
  | osd (o : OsdEntry)

def Line.text : Line → Text
  | .header text _ _ => text
  | .osd o => o.line

def Line.osd? : Line → Option OsdEntry
  | .header _ _ _ => none
  | .osd o => some o

structure Dump where
  lines : List Line
  nodup : ((lines.filterMap Line.osd?).map OsdEntry.id).Nodup

def Dump.osds (d : Dump) : List OsdEntry := d.lines.filterMap Line.osd?

def Dump.text (d : Dump) : Text := ['\n'].intercalate (d.lines.map Line.text)

def idsOf (p : OsdEntry → Bool) (osds : List OsdEntry) : List Int :=
  (osds.filter p).map fun o => (o.id : Int)

/-- Every OSD stands in one list of each pair, the one that its line says, in the order of the lines. -/
structure Classified (osds : List OsdEntry) (s : Status) : Prop where
  in_eq : s.inOsds = idsOf (fun o => o.isIn) osds
  out_eq : s.outOsds = idsOf (fun o => !o.isIn) osds
  up_eq : s.upOsds = idsOf (fun o => o.isUp) osds
  down_eq : s.downOsds = idsOf (fun o => !o.isUp) osds
  in_out : (s.inOsds ++ s.outOsds).Perm (osds.map fun o => (o.id : Int))
  up_down : (s.upOsds ++ s.downOsds).Perm (osds.map fun o => (o.id : Int))
  in_out_nodup : (s.inOsds ++ s.outOsds).Nodup
  up_down_nodup : (s.upOsds ++ s.downOsds).Nodup

/-! ### Lines -/

/-- A part of a line that is not a word of the state. -/
structure Plain (p : Text) : Prop where
  space_notMem : ' ' ∉ p
  newline_notMem : '\n' ∉ p
  plain : p ∉ stateWords

instance (p : Text) : Decidable (Plain p) :=
  decidable_of_iff (' ' ∉ p ∧ '\n' ∉ p ∧ p ∉ stateWords)
    ⟨fun h => ⟨h.1, h.2.1, h.2.2⟩, fun h => ⟨h.space_notMem, h.newline_notMem, h.plain⟩⟩

theorem Token.isPlain (t : Token) : Plain t.text := ⟨t.space_notMem, t.newline_notMem, t.plain⟩

variable {c : Char}

theorem notMem_numeral (h : c.isDigit = false) (n : Nat) : c ∉ numeral n := by
  intro hmem
  rw [isDigit_of_mem_numeral hmem] at h
  cases h

theorem plain_numeral (n : Nat) : Plain (numeral n) where
  space_notMem := notMem_numeral (by decide) n
  newline_notMem := notMem_numeral (by decide) n
  plain hmem := by
    have hnone : ∀ word ∈ stateWords, isDigits word = false := by simp [stateWords, isDigits]
    exact absurd (isDigits_numeral n) (by rw [hnone _ hmem]; decide)

theorem space_notMem_stateWords : ∀ word ∈ stateWords, ' ' ∉ word := by simp [stateWords]

theorem plain_of_mem {p : Text} (hc : c ∈ p) (hnone : ∀ word ∈ stateWords, c ∉ word) (hspace : ' ' ∉ p)
    (hnewline : '\n' ∉ p) : Plain p :=
  ⟨hspace, hnewline, fun hmem => hnone p hmem hc⟩

namespace OsdEntry

variable (o : OsdEntry)

theorem plain_interval : Plain o.interval := by
  have hspace := notMem_numeral (c := ' ') (by decide)
  have hnewline := notMem_numeral (c := '\n') (by decide)
  exact plain_of_mem (c := '[') (by simp [interval]) (by simp [stateWords]) (by simp [interval, hspace])
    (by simp [interval, hnewline])

theorem plain_name : Plain ("osd.".toList ++ numeral o.id) := by
  have hspace := notMem_numeral (c := ' ') (by decide)
  have hnewline := notMem_numeral (c := '\n') (by decide)
  exact plain_of_mem (c := '.') (mem_append_left _ (by simp)) (by simp [stateWords])
    (not_mem_append (by simp) (hspace _)) (not_mem_append (by simp) (hnewline _))

theorem plain_rest : ∀ p ∈ o.rest, Plain p := by
  have hword : ∀ word ∈ ["weight", "up_from", "up_thru", "down_at", "last_clean_interval"],
      Plain word.toList := by
    intro word hmem
    simp only [mem_cons, not_mem_nil, or_false] at hmem
    obtain rfl | rfl | rfl | rfl | rfl := hmem <;> exact ⟨by simp, by simp, by simp [stateWords]⟩
  simp only [forall_mem_cons] at hword
  obtain ⟨hweight, hfrom, hthru, hat, hclean, -⟩ := hword
  simp only [rest, forall_mem_append, forall_mem_cons, forall_mem_map]
  exact ⟨⟨⟨hweight, o.weight.isPlain, hfrom, plain_numeral _, hthru, plain_numeral _, hat, plain_numeral _,
    hclean, o.plain_interval, by simp⟩, fun t _ => t.isPlain⟩, o.flags.isPlain, o.uuid.isPlain, by simp⟩

theorem plain_or {p : Text} (h : p ∈ o.parts) : p = o.upWord ∨ p = o.inWord ∨ Plain p := by
  have hempty : Plain [] := ⟨by simp, by simp, by simp [stateWords]⟩
  simp only [parts, mem_cons, mem_append, mem_replicate] at h
  rcases h with rfl | rfl | ⟨-, rfl⟩ | rfl | ⟨-, rfl⟩ | h
  · exact .inr (.inr o.plain_name)
  · exact .inl rfl
  · exact .inr (.inr hempty)
  · exact .inr (.inl rfl)
  · exact .inr (.inr hempty)
  · exact .inr (.inr (o.plain_rest p h))

theorem upWord_eq : o.upWord = "up".toList ∨ o.upWord = "down".toList := by
  unfold upWord
  split
  · exact .inl rfl
  · exact .inr rfl

theorem inWord_eq : o.inWord = "in".toList ∨ o.inWord = "out".toList := by
  unfold inWord
  split
  · exact .inl rfl
  · exact .inr rfl

theorem notMem_parts (hc : c = ' ' ∨ c = '\n') : ∀ p ∈ o.parts, c ∉ p := by
  have hwords : ∀ word ∈ stateWords, c ∉ word := by
    rcases hc with rfl | rfl
    · exact space_notMem_stateWords
    · simp [stateWords]
  intro p hp
  rcases o.plain_or hp with rfl | rfl | hplain
  · refine hwords _ ?_
    rcases o.upWord_eq with h | h <;> simp [h, stateWords]
  · refine hwords _ ?_
    rcases o.inWord_eq with h | h <;> simp [h, stateWords]
  · rcases hc with rfl | rfl
    · exact hplain.space_notMem
    · exact hplain.newline_notMem

theorem splitOn_line : o.line.splitOn ' ' = o.parts :=
  splitOn_intercalate ' ' (o.notMem_parts (.inl rfl)) (cons_ne_nil _ _)

theorem newline_notMem_line : '\n' ∉ o.line := by
  intro hmem
  rcases mem_intercalate hmem with h | ⟨p, hp, h⟩
  · exact absurd h (by decide)
  · exact o.notMem_parts (.inr rfl) p hp h

theorem infix_upWord : ' ' :: (o.upWord ++ [' ']) <:+: o.line := by
  have hparts : o.parts = ["osd.".toList ++ numeral o.id] ++ o.upWord ::
      (List.replicate o.gap [] ++ o.inWord :: (List.replicate o.gap' [] ++ o.rest)) := rfl
  rw [line, hparts]
  exact infix_intercalate (by simp) (by simp)

theorem infix_inWord : ' ' :: (o.inWord ++ [' ']) <:+: o.line := by
  have hparts : o.parts = (("osd.".toList ++ numeral o.id) :: o.upWord :: List.replicate o.gap []) ++
      o.inWord :: (List.replicate o.gap' [] ++ o.rest) := rfl
  rw [line, hparts]
  exact infix_intercalate (by simp) (by simp [rest])

/-- **A word of the state stands between spaces where it is meant, and nowhere else.** -/
theorem infix_line_iff {word : Text} (hword : word ∈ stateWords) :
    ' ' :: (word ++ [' ']) <:+: o.line ↔ word = o.upWord ∨ word = o.inWord := by
  constructor
  · intro h
    have hmem := mem_splitOn_of_infix (space_notMem_stateWords word hword) h
    rw [o.splitOn_line] at hmem
    rcases o.plain_or hmem with h | h | hplain
    · exact .inl h
    · exact .inr h
    · exact absurd hword hplain.plain
  · rintro (rfl | rfl)
    · exact o.infix_upWord
    · exact o.infix_inWord

theorem has_word {spaced : String} (word : String) (hword : word.toList ∈ stateWords)
    (hspaced : spaced.toList = ' ' :: (word.toList ++ [' '])) :
    has o.line spaced = decide (word.toList = o.upWord ∨ word.toList = o.inWord) := by
  rw [has, hspaced]
  exact decide_eq_decide.mpr (o.infix_line_iff hword)

theorem has_in : has o.line " in " = o.isIn := by
  rw [o.has_word "in" (by simp [stateWords]) (by simp), upWord, inWord]
  cases o.isUp <;> cases o.isIn <;> simp

theorem has_out : has o.line " out " = !o.isIn := by
  rw [o.has_word "out" (by simp [stateWords]) (by simp), upWord, inWord]
  cases o.isUp <;> cases o.isIn <;> simp

theorem has_up : has o.line " up " = o.isUp := by
  rw [o.has_word "up" (by simp [stateWords]) (by simp), upWord, inWord]
  cases o.isUp <;> cases o.isIn <;> simp

theorem has_down : has o.line " down " = !o.isUp := by
  rw [o.has_word "down" (by simp [stateWords]) (by simp), upWord, inWord]
  cases o.isUp <;> cases o.isIn <;> simp

theorem line_eq : ∃ rest, o.line = "osd.".toList ++ (numeral o.id ++ ' ' :: rest) := by
  refine ⟨[' '].intercalate o.parts.tail, ?_⟩
  rw [line, parts, intercalate_cons _ (cons_ne_nil _ _), append_assoc, tail_cons]

theorem isOsdLine_line : isOsdLine o.line = true := by
  have hstart : "osd.".toList.isPrefixOf o.line = true := by
    obtain ⟨rest, hrest⟩ := o.line_eq
    rw [hrest]
    exact isPrefixOf_iff_prefix.mpr (prefix_append _ _)
  have hmem : o.upWord <:+: o.line := List.IsInfix.trans ⟨[' '], [' '], rfl⟩ o.infix_upWord
  rw [isOsdLine, hstart, Bool.true_and, Bool.or_eq_true, has, has, decide_eq_true_iff, decide_eq_true_iff]
  rcases o.upWord_eq with h | h
  · exact .inl (h ▸ hmem)
  · exact .inr (h ▸ hmem)

theorem osdId_line : osdId o.line = .ok o.id := by
  obtain ⟨rest, hrest⟩ := o.line_eq
  have hdrop : o.line.drop 4 = numeral o.id ++ ' ' :: rest := by
    rw [hrest]
    exact drop_left' (by simp)
  have hspace : isBlank ' ' = true := by simp [isBlank]
  have hwords := words_append_cons (numeral_ne_nil o.id)
    (fun c hc => isBlank_of_isDigit (isDigit_of_mem_numeral hc)) hspace rest
  rw [osdId, hdrop, hwords]
  exact pyInt_numeral o.id

end OsdEntry

/-! ### The dump -/

theorem Line.newline_notMem (l : Line) : '\n' ∉ l.text := by
  cases l with
  | header text h h' => exact h'
  | osd o => exact o.newline_notMem_line

theorem Line.isOsdLine_header {text : Text} (h : ¬ "osd.".toList <+: text) : isOsdLine text = false := by
  have hstart : "osd.".toList.isPrefixOf text = false :=
    Bool.eq_false_iff.mpr fun htrue => h ( isPrefixOf_iff_prefix.mp htrue)
  rw [isOsdLine, hstart, Bool.false_and]

theorem filter_isOsdLine (lines : List Line) :
    (lines.map Line.text).filter isOsdLine = (lines.filterMap Line.osd?).map OsdEntry.line := by
  induction lines with
  | nil => rfl
  | cons l lines ih =>
    cases l with
    | header text h h' =>
      rw [map_cons, filter_cons_of_neg (by simp [Line.text, Line.isOsdLine_header h]), ih]
      rfl
    | osd o =>
      rw [map_cons, filter_cons_of_pos (by simpa [Line.text] using o.isOsdLine_line), ih]
      rfl

theorem Dump.filter_text (d : Dump) :
    (d.text.splitOn '\n').filter isOsdLine = d.osds.map OsdEntry.line := by
  by_cases hlines : d.lines = []
  · have hosds : d.osds = [] := by rw [Dump.osds, hlines]; rfl
    rw [hosds, Dump.text, hlines]
    simp [isOsdLine]
  · rw [Dump.text, splitOn_intercalate '\n' ?_ (by simpa using hlines), filter_isOsdLine, Dump.osds]
    exact forall_mem_map.mpr fun l _ => l.newline_notMem

theorem idsWith_lines {word : String} {p : OsdEntry → Bool} (h : ∀ o : OsdEntry, has o.line word = p o)
    (osds : List OsdEntry) : idsWith word (osds.map OsdEntry.line) = .ok (idsOf p osds) := by
  have hfilter : (osds.map OsdEntry.line).filter (fun line => has line word) =
      (osds.filter p).map OsdEntry.line := by
    rw [filter_map]
    exact congrArg (List.map OsdEntry.line) (filter_congr fun o _ => h o)
  rw [idsWith, hfilter, mapM_map]
  exact mapM_ok fun o _ => o.osdId_line

theorem perm_ids {osds : List OsdEntry} (p : OsdEntry → Bool) :
    (idsOf p osds ++ idsOf (fun o => !p o) osds).Perm (osds.map fun o => (o.id : Int)) := by
  rw [idsOf, idsOf, ← map_append]
  exact (filter_append_perm p osds).map _

/-- **Every OSD is classified once.** Whatever the header lines and the other data of the OSDs, the four
lists say for each OSD what the two words of its line say. -/
theorem get_osd_status_classified (d : Dump) (daemons daemons' : List (Nat × Bool)) :
    ∃ s, getOsdStatus d.text (daemons.map fun x => ⟨numeral x.1, x.2⟩)
      (daemons'.map fun x => ⟨numeral x.1, x.2⟩) = .ok s ∧ Classified d.osds s := by
  have hids : ∀ daemons : List (Nat × Bool), ∀ p : Daemon → Bool,
      ∃ ids, ((daemons.map fun x => (⟨numeral x.1, x.2⟩ : Daemon)).filter p).mapM (fun d => pyInt d.id_) =
        .ok ids := by
    intro daemons p
    rw [filter_map, mapM_map]
    exact ⟨_, mapM_ok fun x _ => pyInt_numeral x.1⟩
  obtain ⟨dead, hdead⟩ := hids daemons fun d => !d.running
  obtain ⟨live, hlive⟩ := hids daemons' fun d => d.running
  have hnodup : (d.osds.map fun o => (o.id : Int)).Nodup := by
    have hids := d.nodup.map (fun a b h => Int.ofNat.inj h : Function.Injective Int.ofNat)
    rwa [map_map] at hids
  refine ⟨⟨idsOf (fun o => o.isIn) d.osds, idsOf (fun o => !o.isIn) d.osds, idsOf (fun o => o.isUp) d.osds,
    idsOf (fun o => !o.isUp) d.osds, dead, live, d.osds.map OsdEntry.line⟩, ?_, rfl, rfl, rfl, rfl,
    perm_ids _, perm_ids _, ?_, ?_⟩
  · rw [getOsdStatus, d.filter_text, idsWith_lines OsdEntry.has_in, idsWith_lines OsdEntry.has_out,
      idsWith_lines OsdEntry.has_up, idsWith_lines OsdEntry.has_down, hdead, hlive]
    rfl
  all_goals exact (perm_ids _).nodup_iff.mpr hnodup

end ZbkcTasks.OsdStatus
