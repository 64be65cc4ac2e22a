import ZbkcTasks.ProgWp
import ZbkcTasks.PyBase
import ZbkcTasks.PyValue

/-! `list_pg_missing` of `tasks/zbkc_manager.py`, which reads the missing objects of a PG page by page;
each request goes on from the `oid` of the last object read. -/

namespace ZbkcTasks.PgMissing

open List Prog

structure Op where
  pgid : Pgid
  offset : PyValue

abbrev sig : Sig := ⟨Op, fun _ => PyDict⟩

abbrev M (α : Type) := Prog sig Unit PyError α

def item (d : PyDict) (key : String) : M PyValue := (d.get? key).elim (.throw (.keyError key)) .ret

def asList : PyValue → M (List PyValue)
  | .list xs => .ret xs
  | _ => .throw .typeError

def asDict : PyValue → M PyDict
  | .dict d => .ret d
  | _ => .throw .typeError

def isZero : PyValue → Bool
  | .atom (.int n) => decide (n = 0)
  | .atom (.float q) => decide (q = 0)
  | .atom (.bool b) => !b
  | _ => false

/-- `r = j` for the first reply, `r['objects'].extend(j['objects'])` after it. -/
def addPage (r : Option PyDict) (j : PyDict) : M PyDict :=
  r.elim (.ret j) fun r => do
    let objects ← item r "objects" >>= asList
    let page ← item j "objects" >>= asList
    return r.set "objects" (.list (objects ++ page))

def isLast (j : PyDict) : Bool := (j.get? "more").elim true isZero

def lastOid (j : PyDict) : M PyValue := do
  let objects ← item j "objects" >>= asList
  let last ← objects.getLast?.elim (.throw .indexError) .ret >>= asDict
  item last "oid"

def missingLoop (pgid : Pgid) : Nat → Option PyDict → PyValue → M PyDict
  | 0, _, _ => .cut
  | fuel + 1, r, offset => .op ⟨pgid, offset⟩ fun j => do
      let r ← addPage r j
      if isLast j then return r.del "more"
      else do
        let offset ← lastOid j
        missingLoop pgid fuel (some r) offset

def listPgMissing (pgid : Pgid) (fuel : Nat) : M PyDict := missingLoop pgid fuel none (.dict [])

/-! ### The server -/

/-- A missing object: a dictionary with an `oid`, which is not the offset from which a list starts. -/
structure MissingObject where
  fields : PyDict
  oid : PyValue
  oid_eq : fields.get? "oid" = some oid
  oid_ne : oid ≠ .dict []

def entries (objects : List MissingObject) : PyValue := .list (objects.map fun o => .dict o.fields)

def After (L : List MissingObject) (offset : PyValue) (rest : List MissingObject) : Prop :=
  offset = .dict [] ∧ rest = L ∨ ∃ done o, L = done ++ o :: rest ∧ offset = o.oid

/-- `page` starts `rest`, empty only if nothing is there; `more` says whether something is left. -/
def Answers (rest : List MissingObject) (j : PyDict) : Prop :=
  ∃ page left, rest = page ++ left ∧ (page = [] → rest = []) ∧ j.get? "objects" = some (entries page) ∧
    (j.get? "more" = none ∧ left = [] ∨
      ∃ more, j.get? "more" = some more ∧ (isZero more = true ↔ left = []))

/-- A server that answers from the list `L`, with pages of any length. -/
def server (L : List MissingObject) : Env sig Unit Unit := fun o _ _ j _ _ =>
  ∀ rest, After L o.offset rest → Answers rest j

/-- The whole list in order, and the other fields as they are in the first reply. -/
structure Whole (L : List MissingObject) (first r : PyDict) : Prop where
  objects : r.get? "objects" = some (entries L)
  more : r.get? "more" = none
  others : ∀ key, key ≠ .str "objects" → key ≠ .str "more" → r.get? key = first.get? key

def firstReply (w : World sig Unit Unit) : Option PyDict := w.log.getLast?.map Event.ans

section Pages

variable {L got rest page left : List MissingObject} {first r j : PyDict} {w : World sig Unit Unit}

structure Holds (got : List MissingObject) (first r : PyDict) : Prop where
  objects : r.get? "objects" = some (entries got)
  others : ∀ key, key ≠ .str "objects" → r.get? key = first.get? key

theorem Holds.whole (h : Holds L first r) : Whole L first (r.del "more") where
  objects := by rw [PyDict.get?_del, if_neg (by decide), h.objects]
  more := by rw [PyDict.get?_del, if_pos rfl]
  others key hobjects hmore := by rw [PyDict.get?_del, if_neg hmore, h.others key hobjects]

theorem addPage_some (h : Holds got first r) (hj : j.get? "objects" = some (entries page)) :
    ∃ r', addPage (some r) j = .ret r' ∧ Holds (got ++ page) first r' := by
  refine ⟨r.set "objects" (entries (got ++ page)), ?_, ?_, fun key hkey => ?_⟩
  · simp only [addPage, item, h.objects, hj, entries, Option.elim_some, map_append]
    rfl
  · rw [PyDict.get?_set, if_pos rfl]
  · rw [PyDict.get?_set, if_neg hkey, h.others key hkey]

theorem lastOid_eq {o : MissingObject} (hj : j.get? "objects" = some (entries (page ++ [o]))) :
    lastOid j = .ret o.oid := by
  simp only [lastOid, item, hj, entries, Option.elim_some, ret_bind, asList, map_append, map_cons,
    map_nil, getLast?_concat, asDict, o.oid_eq]

theorem Answers.split (h : Answers rest j) : ∃ page left, rest = page ++ left ∧
    j.get? "objects" = some (entries page) ∧
    (isLast j = true ∧ left = [] ∨ isLast j = false ∧ page ≠ [] ∧ left ≠ []) := by
  obtain ⟨page, left, hrest, hpage, hobjects, hmore⟩ := h
  refine ⟨page, left, hrest, hobjects, ?_⟩
  by_cases hleft : left = []
  · refine .inl ⟨?_, hleft⟩
    rcases hmore with ⟨hmore, -⟩ | ⟨more, hmore, hzero⟩
    · rw [isLast, hmore, Option.elim_none]
    · rw [isLast, hmore, Option.elim_some, hzero.mpr hleft]
  · refine .inr ⟨?_, fun hnil => ?_, hleft⟩
    · rcases hmore with ⟨-, hnil⟩ | ⟨more, hmore, hzero⟩
      · exact absurd hnil hleft
      · rw [isLast, hmore, Option.elim_some]
        exact Bool.eq_false_iff.mpr fun h => hleft (hzero.mp h)
    · have hboth := hpage hnil
      rw [hrest, append_eq_nil_iff] at hboth
      exact hleft hboth.2

theorem firstReply_push (o : Op) (u u' : Unit) :
    firstReply (w.push o j u u') = some ((firstReply w).getD j) := by
  rw [firstReply, World.push_log, getLast?_cons, firstReply]
  cases w.log.getLast? with
  | none | some => rfl

/-- The state of the loop: nothing has been read, or the objects `got` are held in `r`. -/
def Held (got : List MissingObject) (r : Option PyDict) (w : World sig Unit Unit) : Prop :=
  r = none ∧ got = [] ∧ firstReply w = none ∨
    ∃ r' first, r = some r' ∧ firstReply w = some first ∧ Holds got first r'

theorem Held.add {r : Option PyDict} (h : Held got r w) (hj : j.get? "objects" = some (entries page))
    (o : Op) (u u' : Unit) : ∃ r' first, addPage r j = .ret r' ∧ firstReply (w.push o j u u') = some first ∧
      Holds (got ++ page) first r' := by
  rw [firstReply_push]
  rcases h with ⟨rfl, rfl, hfirst⟩ | ⟨r, first, rfl, hfirst, hholds⟩
  · exact ⟨j, j, rfl, by rw [hfirst]; rfl, hj, fun _ _ => rfl⟩
  · obtain ⟨r', hadd, hholds'⟩ := addPage_some hholds hj
    exact ⟨r', first, hadd, by rw [hfirst]; rfl, hholds'⟩

/-- **The loop.** Every page that is not the last one makes the rest shorter. -/
theorem wp_missingLoop (pgid : Pgid) : ∀ fuel got rest offset (r : Option PyDict) w, rest.length < fuel →
    L = got ++ rest → After L offset rest → Held got r w →
    wp (server L) (fun _ _ _ => True) (missingLoop pgid fuel r offset)
      (returns fun r w' => ∃ first, firstReply w' = some first ∧ Whole L first r) w := by
  intro fuel
  induction fuel with
  | zero => exact fun _ _ _ _ _ h => absurd h (Nat.not_lt_zero _)
  | succ fuel ih =>
    intro got rest offset r w hfuel hL hafter hheld
    refine ⟨trivial, fun j u u' hserver => ?_⟩
    obtain ⟨page, left, rfl, hobjects, hlast⟩ := (hserver rest hafter).split
    obtain ⟨r', first, hadd, hfirst, hholds⟩ := hheld.add hobjects ⟨pgid, offset⟩ u u'
    beta_reduce
    rw [hadd, ret_bind]
    rcases hlast with ⟨hlast, rfl⟩ | ⟨hlast, hpage, hleft⟩
    · rw [if_pos hlast]
      rw [append_nil] at hL
      rw [← hL] at hholds
      exact ⟨first, hfirst, hholds.whole⟩
    · rw [if_neg (by simp [hlast])]
      obtain ⟨init, o, rfl⟩ := (eq_nil_or_concat' page).resolve_left hpage
      rw [lastOid_eq hobjects, ret_bind]
      refine ih (got ++ (init ++ [o])) left o.oid (some r') _ ?_ (by rw [hL]; simp) ?_ ?_
      · simp only [length_append, length_singleton] at hfuel
        omega
      · exact .inr ⟨got ++ init, o, by rw [hL]; simp, rfl⟩
      · exact .inr ⟨r', first, rfl, hfirst, hholds⟩

theorem After.eq (hoids : (L.map MissingObject.oid).Nodup) {offset : PyValue} {rest' : List MissingObject}
    (h : After L offset rest) (h' : After L offset rest') : rest = rest' := by
  rcases h with ⟨rfl, rfl⟩ | ⟨done, o, hL, rfl⟩
  · rcases h' with ⟨-, rfl⟩ | ⟨done', o', -, heq⟩
    · rfl
    · exact absurd heq.symm o'.oid_ne
  · rcases h' with ⟨heq, -⟩ | ⟨done', o', hL', heq⟩
    · exact absurd heq o.oid_ne
    · -- the oid stands in the list once, so both cuts are at the same place
      rw [hL, map_append, map_cons, nodup_middle, nodup_cons, mem_append] at hoids
      have hdone : o' ∉ done := fun hmem => hoids.1 (.inl (heq ▸ mem_map_of_mem hmem))
      have hrest : o' ∉ rest := fun hmem => hoids.1 (.inr (heq ▸ mem_map_of_mem hmem))
      exact ((append_cons_inj_of_notMem hdone hrest).mp (hL.symm.trans hL')).2.2

theorem server_total (hoids : (L.map MissingObject.oid).Nodup) (o : Op) (u u' : Unit) :
    ∃ j v v', server L o u u' j v v' := by
  by_cases hafter : ∃ rest, After L o.offset rest
  · obtain ⟨rest, hrest⟩ := hafter
    refine ⟨[(.str "objects", entries rest)], (), (), fun rest' hrest' => ?_⟩
    rw [← hrest.eq hoids hrest']
    exact ⟨rest, [], (append_nil _).symm, fun h => h, rfl, .inl ⟨rfl, rfl⟩⟩
  · exact ⟨[], (), (), fun rest hrest => absurd ⟨rest, hrest⟩ hafter⟩

end Pages

/-- **The whole list.** Whatever the pages are, one request more than there are objects is enough to put
the list together, with the other fields of the first reply. -/
theorem list_pg_missing_whole (L : List MissingObject) (hoids : (L.map MissingObject.oid).Nodup)
    (pgid : Pgid) (fuel : Nat) (hfuel : L.length < fuel) :
    (∃ r w, Exec (server L) (listPgMissing pgid fuel) ⟨(), (), []⟩ r w) ∧
      ∀ r w, Exec (server L) (listPgMissing pgid fuel) ⟨(), (), []⟩ r w →
        ∃ d first, r = .ret d ∧ firstReply w = some first ∧ Whole L first d := by
  refine ⟨exists_exec (server_total hoids) _ _, fun r w hrun => ?_⟩
  have hwp := wp_missingLoop pgid fuel [] L (.dict []) none ⟨(), (), []⟩ hfuel rfl (.inl ⟨rfl, rfl⟩)
    (.inl ⟨rfl, rfl, rfl⟩)
  have hpost := wp_post hwp hrun
  cases r with
  | ret d =>
    obtain ⟨first, hfirst, hwhole⟩ := hpost
    exact ⟨d, first, rfl, hfirst, hwhole⟩
  | exn | cut => exact hpost.elim

def bareObject (name : String) : MissingObject :=
  ⟨[(.str "oid", .dict [(.str "oid", .atom (.str name))])], .dict [(.str "oid", .atom (.str name))], rfl,
    by simp⟩

theorem list_pg_missing_two :
    (∃ r w, Exec (server [bareObject "a", bareObject "b"]) (listPgMissing "0.0" 3) ⟨(), (), []⟩ r w) ∧
      ∀ r w, Exec (server [bareObject "a", bareObject "b"]) (listPgMissing "0.0" 3) ⟨(), (), []⟩ r w →
        ∃ d first, r = .ret d ∧ firstReply w = some first ∧
          Whole [bareObject "a", bareObject "b"] first d :=
  list_pg_missing_whole [bareObject "a", bareObject "b"] (by simp [bareObject]) "0.0" 3 (by decide)

end ZbkcTasks.PgMissing
