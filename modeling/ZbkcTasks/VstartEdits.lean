import ZbkcTasks.VstartSearch

/-! What the file says after any calls. A write leaves the initial text, the banner and the settings of
the writing object; those of the others, which stood behind the banner, are gone. -/

namespace ZbkcTasks.VstartConf

open List SectionMap TextLines

/-! ### What is set -/

def SetIn (calls : List Call) (subsys key value : Text) : Prop :=
  ∃ object p, Call.set object p value ∈ calls ∧ p.subsys = subsys ∧ p.key = key

variable {calls : List Call} {subsys key value text : Text} {made : List Setting} {c : Call} {m : Setting}
  {object : Nat} {st : State} {listing : Listing} {conf : Settings} {kvs : List (Text × Text)}
  {values values' : Text → Prop} {done : Listing}

theorem SetIn.mono {calls' : List Call} (h : calls ⊆ calls') (hset : SetIn calls subsys key value) :
    SetIn calls' subsys key value := by
  obtain ⟨object, p, hmem, hp⟩ := hset
  exact ⟨object, p, h hmem, hp⟩

theorem mem_afterCall (h : m ∈ afterCall made c) : m ∈ made ∨ SetIn [c] m.subsys m.key m.value := by
  cases c with
  | set object p value =>
    rcases mem_cons.mp h with rfl | hm
    · exact .inr ⟨object, p, mem_singleton_self _, rfl, rfl⟩
    · exact .inl (mem_of_mem_filter hm)
  | clear object p => exact .inl (mem_of_mem_filter h)

theorem inForce_snoc (calls : List Call) (c : Call) :
    inForce (calls ++ [c]) = afterCall (inForce calls) c := by
  rw [inForce, foldl_append, foldl_cons, foldl_nil, inForce]

theorem setIn_of_inForce (h : m ∈ inForce calls) : SetIn calls m.subsys m.key m.value := by
  induction calls using List.reverseRecOn with
  | nil => exact absurd h not_mem_nil
  | append_singleton calls c ih =>
    rw [inForce_snoc] at h
    rcases mem_afterCall h with hold | hnew
    · exact (ih hold).mono (subset_append_left _ _)
    · exact hnew.mono (subset_append_right _ _)

theorem setIn_of_ownValue (h : ownValue object calls subsys key = some value) :
    SetIn calls subsys key value := by
  obtain ⟨m, hm, rfl⟩ := Option.map_eq_some_iff.mp h
  have hplace := find?_some hm
  simp only [decide_eq_true_eq] at hplace
  rw [← hplace.1, ← hplace.2]
  exact setIn_of_inForce (mem_of_mem_filter (mem_of_find?_eq_some hm))

theorem newest_filter_eq_none (q : Setting → Bool) (h : newest made subsys key = none) :
    newest (made.filter q) subsys key = none := by
  rw [newest, Option.map_eq_none_iff, find?_eq_none] at h ⊢
  exact fun m hm => h m (mem_of_mem_filter hm)

theorem newest_own_others (made : List Setting) (o object : Nat) (p : Place) (subsys key : Text) :
    newest ((others made object p).filter (·.object = o)) subsys key =
      if o = object ∧ (subsys, key) = (p.subsys, p.key) then none
      else newest (made.filter (·.object = o)) subsys key := by
  split
  · rename_i h
    obtain ⟨rfl, hplace⟩ := h
    rw [newest, Option.map_eq_none_iff, find?_eq_none]
    intro m hm
    rw [others, mem_filter, mem_filter] at hm
    simp only [decide_eq_true_eq] at hm ⊢
    rintro ⟨hs, hk⟩
    rw [Prod.mk.injEq] at hplace
    exact hm.1.2 ⟨hm.2, hs.trans hplace.1, hk.trans hplace.2⟩
  · rename_i h
    rw [newest, others, filter_filter, find?_filter, newest, find?_filter]
    congr 2
    funext m
    rw [Bool.eq_iff_iff]
    simp only [decide_eq_true_eq, Bool.and_eq_true]
    refine ⟨fun hm => ⟨hm.1.1, hm.2⟩, fun hm => ⟨⟨hm.1, ?_⟩, hm.2⟩⟩
    rintro ⟨ho, hs, hk⟩
    exact h ⟨hm.1.symm.trans ho, by rw [← hm.2.1, ← hm.2.2, hs, hk]⟩

theorem ownValue_set (o object : Nat) (calls : List Call) (p : Place) (value subsys key : Text) :
    ownValue o (calls ++ [.set object p value]) subsys key =
      if o = object ∧ (subsys, key) = (p.subsys, p.key) then some value
      else ownValue o calls subsys key := by
  rw [ownValue, inForce_snoc, afterCall, filter_cons, ownValue]
  by_cases ho : o = object
  · subst ho
    rw [if_pos (decide_eq_true rfl), newest, find?_cons]
    by_cases hplace : (subsys, key) = (p.subsys, p.key)
    · rw [if_pos ⟨rfl, hplace⟩]
      rw [Prod.mk.injEq] at hplace
      simp [hplace.1, hplace.2]
    · rw [if_neg fun h => hplace h.2]
      have hother : ¬ (p.subsys = subsys ∧ p.key = key) :=
        fun h => hplace (by rw [h.1, h.2])
      have hrest := newest_own_others (inForce calls) o o p subsys key
      rw [if_neg fun h => hplace h.2, newest] at hrest
      rw [decide_eq_false hother]
      exact hrest
  · rw [if_neg (by simpa using Ne.symm ho), newest_own_others]
    rw [if_neg fun h => ho h.1, if_neg fun h => ho h.1]

theorem ownValue_clear (o object : Nat) (calls : List Call) (p : Place) (subsys key : Text) :
    ownValue o (calls ++ [.clear object p]) subsys key =
      if o = object ∧ (subsys, key) = (p.subsys, p.key) then none
      else ownValue o calls subsys key := by
  rw [ownValue, inForce_snoc, afterCall, newest_own_others, ownValue]

/-! ### The objects -/

theorem Step.written {st' : State} (h : Step st c st') :
    ∃ listing, Lists listing (st'.conf c.object) ∧ st'.text = writeConf listing st.text := by
  cases h with
  | set object p value listing hlists | clear object p listing hset hlists =>
    exact ⟨listing, by rwa [Call.object, State.write_conf_self], rfl⟩

theorem Runs.valueOf_conf (h : Runs (start text) calls st) (o : Nat) (subsys key : Text) :
    valueOf (st.conf o) subsys key = ownValue o calls subsys key := by
  induction h generalizing o with
  | nil => rfl
  | snoc hrun hstep ih =>
    cases hstep with
    | set object p value listing hlists =>
      rw [ownValue_set, ← ih]
      by_cases ho : o = object
      · subst ho
        rw [State.write_conf_self, valueOf_put]
        simp
      · rw [State.write_conf_of_ne _ ho, if_neg fun h => ho h.1]
    | clear object p listing hset hlists =>
      rw [ownValue_clear, ← ih]
      by_cases ho : o = object
      · subst ho
        rw [State.write_conf_self, valueOf_drop]
        simp
      · rw [State.write_conf_of_ne _ ho, if_neg fun h => ho h.1]

theorem Runs.mem_conf (h : Runs (start text) calls st) {o : Nat} (hmem : subsys ∈ st.conf o) :
    ∃ key value, SetIn calls subsys key value := by
  induction h generalizing o with
  | nil => exact absurd hmem Finmap.notMem_empty
  | @snoc calls c st1 st2 hrun hstep ih =>
    have hold : ∀ o, subsys ∈ st1.conf o → ∃ key value, SetIn (calls ++ [c]) subsys key value := by
      intro o ho
      obtain ⟨key, value, hset⟩ := ih ho
      exact ⟨key, value, hset.mono (subset_append_left _ _)⟩
    cases hstep with
    | set object p value listing hlists =>
      by_cases ho : o = object
      · subst ho
        rw [State.write_conf_self, put, Finmap.mem_insert] at hmem
        rcases hmem with rfl | hmem
        · exact ⟨p.key, value, o, p, mem_append_right _ (mem_singleton_self _), rfl, rfl⟩
        · exact hold o hmem
      · rw [State.write_conf_of_ne _ ho] at hmem
        exact hold o hmem
    | clear object p listing hset hlists =>
      by_cases ho : o = object
      · subst ho
        rw [State.write_conf_self, SectionMap.drop, Finmap.mem_insert] at hmem
        rcases hmem with rfl | hmem
        · obtain ⟨value, hvalue⟩ := Option.ne_none_iff_exists'.mp hset
          rw [hrun.valueOf_conf] at hvalue
          exact ⟨p.key, value, (setIn_of_ownValue hvalue).mono (subset_append_left _ _)⟩
        · exact hold o hmem
      · rw [State.write_conf_of_ne _ ho] at hmem
        exact hold o hmem

def FromCalls (calls : List Call) (listing : Listing) : Prop :=
  ∀ kvs ∈ listing, (∃ key value, SetIn calls kvs.1 key value) ∧ ∀ kv ∈ kvs.2, SetIn calls kvs.1 kv.1 kv.2

theorem Runs.fromCalls (h : Runs (start text) calls st) {o : Nat} (hlists : Lists listing (st.conf o)) :
    FromCalls calls listing := by
  intro kvs hkvs
  refine ⟨h.mem_conf ((hlists.mem_sections kvs.1).mp (mem_map_of_mem hkvs)), fun kv hkv => ?_⟩
  have hvalue := (hlists.mem_keys kvs hkvs kv.1 kv.2).mp hkv
  rw [h.valueOf_conf] at hvalue
  exact setIn_of_ownValue hvalue

def Has (listing : Listing) (subsys key value : Text) : Prop :=
  ∃ kvs, (subsys, kvs) ∈ listing ∧ (key, value) ∈ kvs

theorem Lists.has_iff (h : Lists listing conf) :
    Has listing subsys key value ↔ valueOf conf subsys key = some value := by
  constructor
  · rintro ⟨kvs, hmem, hkv⟩
    exact (h.mem_keys _ hmem key value).mp hkv
  · intro hvalue
    have hsub : subsys ∈ conf := by
      by_contra hnot
      rw [valueOf, inSection_of_notMem hnot, Finmap.lookup_empty] at hvalue
      cases hvalue
    obtain ⟨kvs, hmem, rfl⟩ := mem_map.mp ((h.mem_sections subsys).mpr hsub)
    exact ⟨kvs.2, hmem, (h.mem_keys kvs hmem key value).mpr hvalue⟩

/-! ### The text that is written -/

/-- A key that is read back from its line, and that a pattern finds only as itself. -/
structure KeyName (key : Text) : Prop where
  newline : '\n' ∉ key
  equals : '=' ∉ key
  dot : '.' ∉ key
  head : ∃ c rest, key = c :: rest ∧ isBlank c = false ∧ c ≠ '#' ∧ c ≠ '['

/-- Names and values are of one line, no key ends in another, and nothing in the initial text is found. -/
structure Regular (text : Text) (calls : List Call) : Prop where
  no_banner : ¬ banner <:+: text ++ ['\n']
  subsys_name : ∀ subsys key value, SetIn calls subsys key value → '\n' ∉ subsys ∧ '=' ∉ subsys
  key_name : ∀ subsys key value, SetIn calls subsys key value → KeyName key
  value_line : ∀ subsys key value, SetIn calls subsys key value → '\n' ∉ value
  apart : ∀ subsys key value subsys' key' value', SetIn calls subsys key value →
    SetIn calls subsys' key' value' → ∀ c, key' ≠ c :: key
  untouched : ∀ subsys key value, SetIn calls subsys key value →
    findExisting subsys key (text ++ banner) = none

theorem Regular.mono {calls' : List Call} (h : Regular text calls') (hsub : calls ⊆ calls') :
    Regular text calls where
  no_banner := h.no_banner
  subsys_name s k v hset := h.subsys_name s k v (hset.mono hsub)
  key_name s k v hset := h.key_name s k v (hset.mono hsub)
  value_line s k v hset := h.value_line s k v (hset.mono hsub)
  apart s k v s' k' v' hset hset' := h.apart s k v s' k' v' (hset.mono hsub) (hset'.mono hsub)
  untouched s k v hset := h.untouched s k v (hset.mono hsub)

def keyLines (kvs : List (Text × Text)) : List Text := kvs.map fun kv => keyLine kv.1 kv.2

def renderLines (listing : Listing) : List Text :=
  listing.flatMap fun kvs => [] :: headerLine kvs.1 :: keyLines kvs.2

def rendered (text : Text) (listing : Listing) : Text :=
  text ++ (banner ++ joinLines '\n' (renderLines listing))

theorem rendered_nil (text : Text) : rendered text [] = text ++ banner := by
  rw [rendered, renderLines, flatMap_nil, joinLines, flatMap_nil, append_nil]

theorem rendered_section (text : Text) (done : Listing) (subsys : Text) :
    rendered text done ++ '\n' :: (headerLine subsys ++ ['\n']) =
      rendered text (done ++ [(subsys, [])]) := by
  simp [rendered, renderLines, keyLines, joinLines]

theorem rendered_key (text : Text) (done : Listing) (subsys : Text) (kvs : List (Text × Text))
    (kv : Text × Text) : rendered text (done ++ [(subsys, kvs)]) ++ (keyLine kv.1 kv.2 ++ ['\n']) =
      rendered text (done ++ [(subsys, kvs ++ [kv])]) := by
  simp [rendered, renderLines, keyLines, joinLines]

section

variable (hreg : Regular text calls)
include hreg

theorem findKey_keyLines (hset : SetIn calls subsys key value) {subsys' : Text}
    (hkvs : ∀ kv ∈ kvs, SetIn calls subsys' kv.1 kv.2) {rest : Text}
    (hrest : findKey key true rest = none) :
    findKey key true (joinLines '\n' (keyLines kvs) ++ rest) = none := by
  induction kvs with
  | nil => exact hrest
  | cons kv kvs ih =>
    obtain ⟨hkv, htail⟩ := forall_mem_cons.mp hkvs
    have hkey := hreg.key_name _ _ _ hset
    have hname := hreg.key_name _ _ _ hkv
    obtain ⟨c, k, hk, hc, -, -⟩ := hname.head
    rw [keyLines, map_cons, joinLines_cons, append_assoc, cons_append]
    have hline : '\n' ∉ keyLine kv.1 kv.2 := by
      simpa [keyLine] using ⟨hname.newline, hreg.value_line _ _ _ hkv⟩
    refine findKey_line hline ?_ (ih htail)
    have hrest : startsWithKey key (k ++ (" = ".toList ++ kv.2)) = false := by
      by_contra hstart
      have hequals : '=' ∉ k := fun hmem => hname.equals (hk ▸ mem_cons_of_mem c hmem)
      have hsame := startsWithKey_keyLine hkey.dot hkey.equals hequals (Bool.not_eq_false _ ▸ hstart)
      exact hreg.apart _ _ _ _ _ _ hset hkv c (by rw [hk, hsame])
    rw [keyLine, hk]
    exact matchKey_line hkey.newline (by simp [hc]) hrest _

theorem findKey_renderLines (hset : SetIn calls subsys key value) (hfrom : FromCalls calls listing) :
    findKey key true (joinLines '\n' (renderLines listing)) = none := by
  induction listing with
  | nil => rfl
  | cons kvs listing ih =>
    obtain ⟨⟨⟨k, v, hsec⟩, hkvs⟩, htail⟩ := forall_mem_cons.mp hfrom
    have hkey := hreg.key_name _ _ _ hset
    obtain ⟨hnewline, hequals⟩ := hreg.subsys_name _ _ _ hsec
    have hbody := findKey_keyLines hreg hset hkvs (ih htail)
    have hheader : startsWithKey key (headerLine kvs.1) = false :=
      startsWithKey_of_no_equals (by simpa [headerLine] using hequals) key
    have hname : startsWithKey key (kvs.1 ++ [']']) = false :=
      startsWithKey_of_no_equals (by simpa using hequals) key
    have hline : '\n' ∉ headerLine kvs.1 := by simpa [headerLine] using hnewline
    have hmatch : ∀ rest, matchKey key (headerLine kvs.1 ++ '\n' :: rest) = none :=
      matchKey_line hkey.newline (by decide) hname
    rw [renderLines, flatMap_cons, cons_append, cons_append, joinLines_cons,
      joinLines_cons, joinLines_append]
    refine findKey_line not_mem_nil ?_ (findKey_line hline (hmatch _) hbody)
    -- the blank line before a header may be passed over by the pattern
    rw [nil_append, matchKey, hmatch, startsWithKey_line hkey.newline, hheader]
    simp

theorem findExisting_rendered (hset : SetIn calls subsys key value)
    (hfrom : FromCalls calls listing) : findExisting subsys key (rendered text listing) = none := by
  have hbanner : banner = banner.dropLast ++ ['\n'] := rfl
  have hfirst := hreg.untouched _ _ _ hset
  rw [hbanner, ← append_assoc] at hfirst
  rw [rendered, hbanner, append_assoc, singleton_append, ← append_assoc]
  refine findExisting_append (hreg.subsys_name _ _ _ hset).1 (hreg.key_name _ _ _ hset).newline hfirst
    (findKey_renderLines hreg hset hfrom) ?_
  cases listing with
  | nil => exact .inl rfl
  | cons kvs listing => exact .inr rfl

theorem foldl_addKey {kvs' : List (Text × Text)}
    (hfrom : FromCalls calls (done ++ [(subsys, kvs ++ kvs')])) :
    kvs'.foldl (addKey subsys) (rendered text (done ++ [(subsys, kvs)])) =
      rendered text (done ++ [(subsys, kvs ++ kvs')]) := by
  induction kvs' generalizing kvs with
  | nil => rw [foldl_nil, append_nil]
  | cons kv kvs' ih =>
    obtain ⟨hdone, hlast⟩ := forall_mem_append.mp hfrom
    obtain ⟨⟨hsec, hkvs⟩, -⟩ := forall_mem_cons.mp hlast
    obtain ⟨hfront, hback⟩ := forall_mem_append.mp hkvs
    have hsofar : FromCalls calls (done ++ [(subsys, kvs)]) :=
      forall_mem_append.mpr ⟨hdone, forall_mem_singleton.mpr ⟨hsec, hfront⟩⟩
    have hset := (forall_mem_cons.mp hback).1
    rw [foldl_cons, addKey, commentOut_of_none (findExisting_rendered hreg hset hsofar),
      rendered_key]
    rw [append_cons kvs kv kvs'] at hfrom ⊢
    exact ih hfrom

theorem foldl_addSection (hfrom : FromCalls calls (done ++ listing)) :
    listing.foldl addSection (rendered text done) = rendered text (done ++ listing) := by
  induction listing generalizing done with
  | nil => rw [foldl_nil, append_nil]
  | cons kvs listing ih =>
    rw [append_cons] at hfrom ⊢
    have hfirst : FromCalls calls (done ++ [kvs]) := fun e he => hfrom e (mem_append_left _ he)
    rw [foldl_cons, addSection, rendered_section, foldl_addKey hreg hfirst]
    exact ih hfrom

theorem writeConf_eq (hfrom : FromCalls calls listing) {existing : Text}
    (hcut : beforeFirst banner existing = text) : writeConf listing existing = rendered text listing := by
  rw [writeConf, hcut, ← rendered_nil]
  exact foldl_addSection hreg hfrom

/-- The next write cuts the file where the initial text ends: a banner that began in it would end in it, or
with the newline right behind it. -/
theorem beforeFirst_rendered (listing : Listing) :
    beforeFirst banner (rendered text listing) = text := by
  refine beforeFirst_append (by decide) (fun hin => hreg.no_banner ?_) _
  have hbanner : banner = banner.dropLast ++ ['\n'] := rfl
  have hlast : banner.dropLast = '\n' :: "#LOCAL_TEST".toList := rfl
  obtain ⟨before, after, heq⟩ := hin
  have hcut : (before ++ banner.dropLast) ++ '\n' :: after = text ++ '\n' :: "#LOCAL_TEST".toList := by
    rw [← hlast, ← heq]
    conv_rhs => rw [hbanner]
    simp
  have hinfix : ∀ rest, before ++ banner.dropLast ++ '\n' :: rest = text ++ ['\n'] →
      banner <:+: text ++ ['\n'] := by
    intro rest hrest
    refine ⟨before, rest, ?_⟩
    rw [← hrest]
    conv_lhs => rw [hbanner]
    simp
  rcases append_eq_append_iff.mp hcut with ⟨between, htext, hrest⟩ | ⟨between, htext, hrest⟩
  · rcases between with - | ⟨a, between⟩
    · exact hinfix [] (by rw [htext, append_nil])
    · rw [cons_append, List.cons.injEq] at hrest
      exact hinfix (between ++ ['\n']) (by rw [htext, hrest.1]; simp)
  · rcases between with - | ⟨a, between⟩
    · exact hinfix [] (by rw [htext, append_nil])
    · rw [cons_append, List.cons.injEq] at hrest
      have hmem : '\n' ∈ "#LOCAL_TEST".toList := by simp [hrest.2]
      exact absurd hmem (by decide)

end

/-! ### Reading it back -/

theorem readLine_headerLine (subsys : Text) : readLine (headerLine subsys) = .header subsys := by
  have hstrip : ((headerLine subsys).reverse.dropWhile isBlank).reverse = headerLine subsys := by
    simp [headerLine, isBlank]
  have hheader : asHeader (headerLine subsys) = some subsys := by
    rw [asHeader, hstrip]
    simp [headerLine]
  have hleft : (headerLine subsys).dropWhile isBlank = headerLine subsys := by
    simp [headerLine, isBlank]
  rw [readLine, hleft, hheader]
  simp [headerLine]

theorem readLine_keyLine (hkey : KeyName key) (value : Text) :
    readLine (keyLine key value) = .entry key value := by
  have hentry : asEntry (keyLine key value) = some (key, value) := by
    have hline : keyLine key value = (key ++ [' ']) ++ '=' :: (' ' :: value) := by simp [keyLine]
    have hequals : '=' ∉ key ++ [' '] := by simpa using hkey.equals
    rw [asEntry, hline, takeWhile_append_sep hequals, dropWhile_append_sep hequals]
    simp
  obtain ⟨c, rest, hc, hspace, hcomment, hbracket⟩ := hkey.head
  have hleft : (keyLine key value).dropWhile isBlank = keyLine key value := by
    simp [keyLine, hc, hspace]
  have hheader : asHeader (keyLine key value) = none := by
    -- blanks are taken from the end only
    have hfront : ((keyLine key value).reverse.dropWhile isBlank).reverse <+: keyLine key value := by
      rw [← reverse_suffix, reverse_reverse]
      exact dropWhile_suffix isBlank
    obtain ⟨blanks, hblanks⟩ := hfront
    refine if_neg fun h => hbracket ?_
    have hhead := congrArg List.head? hblanks
    rw [head?_append, h.1, keyLine, hc] at hhead
    exact (Option.some.inj hhead).symm
  rw [readLine, hleft, hheader, hentry]
  simp [keyLine, hc, hcomment]

theorem scan_append (subsys key : Text) (ls ls' : List Text) (seen : Bool × Option Text) :
    scan subsys key (ls ++ ls') seen = scan subsys key ls' (scan subsys key ls seen) := by
  rw [scan, map_append, foldl_append, scan, scan]

theorem scan_cons (subsys key l : Text) (ls : List Text) (seen : Bool × Option Text) :
    scan subsys key (l :: ls) seen = scan subsys key ls (scanLine subsys key seen (readLine l)) := rfl

def SeenLast (values : Text → Prop) (before after : Option Text) : Prop :=
  (∃ v, values v ∧ after = some v) ∨ ((∀ v, ¬ values v) ∧ after = before)

theorem SeenLast.trans {a b c : Option Text} (h : SeenLast values a b) (h' : SeenLast values' b c) :
    SeenLast (fun v => values v ∨ values' v) a c := by
  rcases h' with ⟨v, hv, rfl⟩ | ⟨hnone', rfl⟩
  · exact .inl ⟨v, .inr hv, rfl⟩
  · rcases h with ⟨v, hv, rfl⟩ | ⟨hnone, rfl⟩
    · exact .inl ⟨v, .inl hv, rfl⟩
    · exact .inr ⟨fun v hv => hv.elim (hnone v) (hnone' v), rfl⟩

theorem SeenLast.congr {a b : Option Text} (h : SeenLast values a b) (hsame : ∀ v, values v ↔ values' v) :
    SeenLast values' a b := by
  rwa [show values' = values from (funext fun v => propext (hsame v)).symm]

theorem SeenLast.eq_or {a b value : Option Text} (h : SeenLast values a b)
    (hvalue : ∀ v, values v ↔ value = some v) : b = value.or a := by
  rcases h with ⟨v, hv, rfl⟩ | ⟨hnone, rfl⟩
  · rw [(hvalue v).mp hv, Option.some_or]
  · rw [Option.eq_none_iff_forall_ne_some.mpr fun v hv => hnone v ((hvalue v).mpr hv), Option.none_or]

theorem scan_keyLines (subsys key : Text) (hkvs : ∀ kv ∈ kvs, KeyName kv.1) (seen : Bool × Option Text) :
    SeenLast (fun v => seen.1 = true ∧ (key, v) ∈ kvs) seen.2 (scan subsys key (keyLines kvs) seen).2 := by
  induction kvs generalizing seen with
  | nil => exact .inr ⟨fun v hv => not_mem_nil hv.2, rfl⟩
  | cons kv kvs ih =>
    obtain ⟨hkv, htail⟩ := forall_mem_cons.mp hkvs
    rw [keyLines, map_cons, scan_cons, readLine_keyLine hkv, scanLine]
    split
    · rename_i hhere
      have hstep : SeenLast (fun v => v = kv.2) seen.2 (some kv.2) := .inl ⟨kv.2, rfl, rfl⟩
      refine (hstep.trans (ih htail (seen.1, some kv.2))).congr fun v => ?_
      rw [mem_cons, Prod.ext_iff]
      simp [hhere.1, hhere.2]
    · rename_i hhere
      refine (ih htail seen).congr fun v => ?_
      rw [mem_cons, Prod.ext_iff]
      constructor
      · exact fun hv => ⟨hv.1, .inr hv.2⟩
      · rintro ⟨hin, ⟨hk, -⟩ | hmem⟩
        · exact absurd ⟨hin, hk.symm⟩ hhere
        · exact ⟨hin, hmem⟩

section

variable (hreg : Regular text calls)
include hreg

theorem scan_renderLines (subsys key : Text) (hfrom : FromCalls calls listing)
    (seen : Bool × Option Text) :
    SeenLast (Has listing subsys key) seen.2 (scan subsys key (renderLines listing) seen).2 := by
  induction listing generalizing seen with
  | nil => exact .inr ⟨fun v ⟨kvs, hmem, _⟩ => not_mem_nil hmem, rfl⟩
  | cons kvs listing ih =>
    obtain ⟨⟨-, hkvs⟩, htail⟩ := forall_mem_cons.mp hfrom
    have hnames : ∀ kv ∈ kvs.2, KeyName kv.1 := fun kv hkv => hreg.key_name _ _ _ (hkvs kv hkv)
    rw [renderLines, flatMap_cons, cons_append, cons_append, scan_cons, scan_cons,
      readLine_headerLine, scan_append]
    have hblank : scanLine subsys key seen (readLine []) = seen := rfl
    rw [hblank, scanLine]
    have hfirst := scan_keyLines subsys key hnames (decide (kvs.1 = subsys), seen.2)
    refine (hfirst.trans (ih htail _)).congr fun v => ?_
    simp only [decide_eq_true_eq, Has, mem_cons]
    constructor
    · rintro (⟨rfl, hmem⟩ | ⟨kvs', hmem, hkv⟩)
      · exact ⟨kvs.2, .inl rfl, hmem⟩
      · exact ⟨kvs', .inr hmem, hkv⟩
    · rintro ⟨kvs', rfl | hmem, hkv⟩
      · exact .inl ⟨rfl, hkv⟩
      · exact .inr ⟨kvs', hmem, hkv⟩

theorem newline_notMem_renderLines (hfrom : FromCalls calls listing) :
    ∀ l ∈ renderLines listing, '\n' ∉ l := by
  intro l hl
  obtain ⟨kvs, hkvs, hl⟩ := mem_flatMap.mp hl
  obtain ⟨⟨k, v, hsec⟩, hsets⟩ := hfrom kvs hkvs
  rcases mem_cons.mp hl with rfl | hl
  · exact not_mem_nil
  rcases mem_cons.mp hl with rfl | hl
  · simpa [headerLine] using (hreg.subsys_name _ _ _ hsec).1
  · obtain ⟨kv, hkv, rfl⟩ := mem_map.mp hl
    have hset := hsets kv hkv
    simpa [keyLine] using ⟨(hreg.key_name _ _ _ hset).newline, hreg.value_line _ _ _ hset⟩

theorem lines_rendered (hfrom : FromCalls calls listing) : lines (rendered text listing) =
      lines text ++ ("#LOCAL_TEST".toList :: renderLines listing ++ [[]]) := by
  have hsplit : rendered text listing =
      text ++ '\n' :: (joinLines '\n' ("#LOCAL_TEST".toList :: renderLines listing) ++ []) := by
    rw [joinLines_cons, append_nil]
    rfl
  have hnewline : ∀ l ∈ "#LOCAL_TEST".toList :: renderLines listing, '\n' ∉ l :=
    forall_mem_cons.mpr ⟨by decide, newline_notMem_renderLines hreg hfrom⟩
  rw [lines, hsplit, splitOn_append_cons, splitOn_joinLines_append hnewline]
  rfl

theorem effective_rendered (hfrom : FromCalls calls listing)
    (hlists : Lists listing conf) (subsys key : Text) : effective (rendered text listing) subsys key =
      (valueOf conf subsys key).or (effective text subsys key) := by
  have hbanner : ∀ seen, scanLine subsys key seen (readLine "#LOCAL_TEST".toList) = seen := fun _ => rfl
  have hend : ∀ seen, scan subsys key [[]] seen = seen := fun _ => rfl
  rw [effective, lines_rendered hreg hfrom, scan_append, scan_append, hend, scan_cons, hbanner]
  exact (scan_renderLines hreg subsys key hfrom _).eq_or fun v => hlists.has_iff

/-! ### Whole runs -/

theorem Runs.written (hrun : Runs (start text) calls st) : beforeFirst banner st.text = text := by
  induction hrun with
  | nil =>
    refine beforeFirst_of_not_infix fun hin => hreg.no_banner ?_
    exact hin.trans (prefix_append _ _).isInfix
  | snoc hrun hstep ih =>
    obtain ⟨listing, hlists, htext⟩ := hstep.written
    have hcut := ih (hreg.mono (subset_append_left _ _))
    have hfrom := (Runs.snoc hrun hstep).fromCalls hlists
    rw [htext, writeConf_eq hreg hfrom hcut]
    exact beforeFirst_rendered hreg listing

end

/-- **What the file says after a call.** A reader sees what the calling object has set and not cleared, and
otherwise the initial text. -/
theorem Runs.effective_eq (hreg : Regular text (calls ++ [c])) {st' : State}
    (hrun : Runs (start text) calls st) (hstep : Step st c st') (subsys key : Text) :
    effective st'.text subsys key =
      (ownValue c.object (calls ++ [c]) subsys key).or (effective text subsys key) := by
  obtain ⟨listing, hlists, htext⟩ := hstep.written
  have hall := Runs.snoc hrun hstep
  have hfrom := hall.fromCalls hlists
  have hcut := hrun.written (hreg.mono (subset_append_left _ _))
  rw [htext, writeConf_eq hreg hfrom hcut, effective_rendered hreg hfrom hlists, hall.valueOf_conf]

/-! ### When the edits compose -/

theorem lists_put (p : Place) (value : Text) :
    Lists [(p.subsys, [(p.key, value)])] (put ∅ p.subsys p.key value) where
  sections_nodup := nodup_singleton _
  mem_sections subsys := by
    rw [put, Finmap.mem_insert]
    simp [Finmap.notMem_empty]
  keys_nodup := forall_mem_singleton.mpr (nodup_singleton _)
  mem_keys := by
    refine forall_mem_singleton.mpr fun key v => ?_
    rw [valueOf_put]
    by_cases hkey : key = p.key
    · simp [hkey, eq_comm]
    · simp [hkey, valueOf, inSection]

theorem lists_drop_put (p : Place) (value : Text) :
    Lists [(p.subsys, [])] (drop (put ∅ p.subsys p.key value) p.subsys p.key) where
  sections_nodup := nodup_singleton _
  mem_sections subsys := by
    rw [SectionMap.drop, Finmap.mem_insert, put, Finmap.mem_insert]
    simp [Finmap.notMem_empty]
  keys_nodup := forall_mem_singleton.mpr nodup_nil
  mem_keys := by
    refine forall_mem_singleton.mpr fun key v => ?_
    rw [valueOf_drop, valueOf_put]
    by_cases hkey : key = p.key
    · simp [hkey]
    · simp [hkey, valueOf, inSection]

theorem runs_set (text : Text) (object : Nat) (p : Place) (value : Text) :
    Runs (start text) [.set object p value]
      ((start text).write object (put ∅ p.subsys p.key value) [(p.subsys, [(p.key, value)])]) :=
  .snoc .nil (.set (start text) object p value _ (lists_put p value))

theorem reportInterval_plain :
    ∀ c ∈ "osd".toList ++ "osd_mon_report_interval_max".toList, c ∉ special := by
  have hall : ("osd".toList ++ "osd_mon_report_interval_max".toList).all (· ∉ special) = true := by decide
  exact fun c hc => of_decide_eq_true (all_eq_true.mp hall c hc)

theorem logSegments_plain : ∀ c ∈ "mds".toList ++ "mds log max segments".toList, c ∉ special := by
  have hall : ("mds".toList ++ "mds log max segments".toList).all (· ∉ special) = true := by decide
  exact fun c hc => of_decide_eq_true (all_eq_true.mp hall c hc)

def reportInterval : Place := ⟨_, _, reportInterval_plain⟩

def logSegments : Place := ⟨_, _, logSegments_plain⟩

theorem setIn_singleton {p : Place} {v : Text} (h : SetIn [.set object p v] subsys key value) :
    subsys = p.subsys ∧ key = p.key ∧ value = v := by
  obtain ⟨object', p', hmem, hsub, hkey⟩ := h
  rw [mem_singleton, Call.set.injEq] at hmem
  obtain ⟨-, rfl, rfl⟩ := hmem
  exact ⟨hsub.symm, hkey.symm, rfl⟩

theorem keyName_reportInterval : KeyName reportInterval.key where
  newline := by decide +kernel
  equals := by decide +kernel
  dot := by decide +kernel
  head := ⟨'o', "sd_mon_report_interval_max".toList, rfl, by decide⟩

theorem regular_reportInterval :
    Regular "[osd]\n".toList ([] ++ [.set 0 reportInterval "5".toList]) where
  no_banner := by decide +kernel
  subsys_name s k v h := by
    obtain ⟨rfl, rfl, rfl⟩ := setIn_singleton h
    decide +kernel
  key_name s k v h := by
    obtain ⟨rfl, rfl, rfl⟩ := setIn_singleton h
    exact keyName_reportInterval
  value_line s k v h := by
    obtain ⟨rfl, rfl, rfl⟩ := setIn_singleton h
    decide +kernel
  apart s k v s' k' v' h h' c := by
    obtain ⟨-, rfl, -⟩ := setIn_singleton h
    obtain ⟨-, rfl, -⟩ := setIn_singleton h'
    exact fun heq => cons_ne_self _ _ heq.symm
  untouched s k v h := by
    obtain ⟨rfl, rfl, rfl⟩ := setIn_singleton h
    decide +kernel

/-- **When the edits compose.** After each call the file says what it should exactly when every value in
force is one that the calling object holds, or one of the initial text that it does not override. -/
theorem conf_edits_compose_iff {text : Text} {calls : List Call} {c : Call}
    (hreg : Regular text (calls ++ [c])) {st st' : State} (hrun : Runs (start text) calls st)
    (hstep : Step st c st') :
    (∀ subsys key, effective st'.text subsys key = expected text (calls ++ [c]) subsys key) ↔
      ∀ subsys key value, valueInForce (calls ++ [c]) subsys key = some value →
        (ownValue c.object (calls ++ [c]) subsys key).or (effective text subsys key) = some value := by
  have hsees := hrun.effective_eq hreg hstep
  constructor
  · intro h subsys key value hvalue
    rw [← hsees, h, expected, hvalue, Option.some_or]
  · intro h subsys key
    rw [hsees, expected]
    cases hvalue : valueInForce (calls ++ [c]) subsys key with
    | none =>
      have hown : ownValue c.object (calls ++ [c]) subsys key = none := newest_filter_eq_none _ hvalue
      rw [hown]
    | some value => rw [h subsys key value hvalue, Option.some_or]

theorem conf_edits_compose_one : ∃ st, Step (start "[osd]\n".toList) (.set 0 reportInterval "5".toList) st ∧
    ∀ subsys key, effective st.text subsys key =
      expected "[osd]\n".toList [.set 0 reportInterval "5".toList] subsys key := by
  have hstep := Step.set (start "[osd]\n".toList) 0 reportInterval "5".toList _
    (lists_put reportInterval "5".toList)
  refine ⟨_, hstep, (conf_edits_compose_iff regular_reportInterval .nil hstep).mpr ?_⟩
  intro subsys key value hvalue
  have hown : ownValue 0 [.set 0 reportInterval "5".toList] subsys key =
      valueInForce [.set 0 reportInterval "5".toList] subsys key := rfl
  exact (congrArg (Option.or · _) (hown.trans hvalue)).trans (Option.some_or ..)

/-- A second write drops a setting that `exec_test` has made with another object; and a setting that the
file has already, set and cleared, stays commented out. -/
theorem settings_lost : (∃ st st', Runs (start []) [.set 0 reportInterval "5".toList] st ∧
      Step st (.set 1 logSegments "10".toList) st' ∧
      effective st'.text reportInterval.subsys reportInterval.key = none ∧
      expected [] [.set 0 reportInterval "5".toList, .set 1 logSegments "10".toList]
        reportInterval.subsys reportInterval.key = some "5".toList) ∧
    ∃ st st', Runs (start "[mds]\n\tmds log max segments = 2\n".toList)
        [.set 0 logSegments "10".toList] st ∧ Step st (.clear 0 logSegments) st' ∧
      effective st'.text logSegments.subsys logSegments.key = none ∧
      expected "[mds]\n\tmds log max segments = 2\n".toList
        [.set 0 logSegments "10".toList, .clear 0 logSegments]
        logSegments.subsys logSegments.key = some "2".toList := by
  refine ⟨⟨_, _, runs_set [] 0 reportInterval _,
      .set _ 1 logSegments _ [(logSegments.subsys, [(logSegments.key, "10".toList)])] ?_, ?_, ?_⟩,
    ⟨_, _, runs_set _ 0 logSegments _, .clear _ 0 logSegments [(logSegments.subsys, [])] ?_ ?_, ?_, ?_⟩⟩
  · rw [State.write_conf_of_ne _ (by decide)]
    exact lists_put logSegments _
  · decide +kernel
  · decide +kernel
  · rw [State.write_conf_self, valueOf_put, if_pos rfl]
    simp
  · rw [State.write_conf_self]
    exact lists_drop_put logSegments _
  · decide +kernel
  · decide +kernel

end ZbkcTasks.VstartConf
