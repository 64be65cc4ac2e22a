import ZbkcTasks.JsonText
import ZbkcTasks.PyProg

/-! `_socket_command` of `tasks/admin_socket.py`, which sends a command until it succeeds. All attempts
write to one buffer, and the text of all of them is read as JSON. -/

namespace ZbkcTasks.AdminSocket

open List Prog

abbrev Text := List Char

/-- A command that has ended, with what it has written. A crash has no exit status. -/
structure Proc where
  exitstatus : Option Int
  stdout : Text

inductive Op
  | run (args : List Text)
  | sleep (seconds : Nat)

@[reducible] def Op.Ans : Op → Type
  | .run _ => Except CommandError Proc
  | .sleep _ => Unit

@[reducible] def sig : Sig where
  Op := Op
  Ans := Op.Ans

abbrev M := Prog sig Text PyError

def runArgs (testdir socketPath command : Text) (args : List Text) : List Text :=
  ["sudo".toList, "adjust-ulimits".toList, "zbkc-coverage".toList, testdir ++ "/archive/coverage".toList,
    "zbkc".toList, "--admin-daemon".toList, socketPath] ++ command.splitOn ' ' ++ args

def attempt (args : List Text) : M Proc :=
  .op (.run args) fun r => ofCommand r >>= fun proc =>
    .read fun jsonFp => .write (jsonFp ++ proc.stdout) (.ret proc)

def retry (args : List Text) (maxTries : Nat) : M Unit :=
  attempt args >>= fun proc =>
    if proc.exitstatus = some 0 then .ret ()
    else
      match maxTries with
      | 0 => .throw (.assertionError "")
      | maxTries + 1 => .op (.sleep 1) fun _ => retry args maxTries

def loads (text : Text) : Except PyError Json := (Json.read text).elim (.error .valueError) .ok

def socketCommand (testdir socketPath command : Text) (args : List Text) : M Json :=
  .write [] (retry (runArgs testdir socketPath command args) 120 >>= fun _ =>
    .read fun out => orThrow (loads out))

structure Failure extends Proc where
  failed : exitstatus ≠ some 0

/-- The attempts fail as given, and succeed with the output `d` after that. -/
def reply (d : Text) : (o : Op) → Text → List Failure → Op.Ans o × Text × List Failure
  | .run _, s, failure :: failures => (.ok failure.toProc, s, failures)
  | .run _, s, [] => (.ok ⟨some 0, d⟩, s, [])
  | .sleep _, s, failures => ((), s, failures)

def outcome (call : M Json) (failures : List Failure) (d : Text) : Outcome PyError Json × List Failure :=
  let r := runWith (reply d) call ⟨[], failures, []⟩
  (r.1, r.2.ext)

/-- Up to 120 failures make no difference to the value that is returned, and it takes 121 to make the call
raise. -/
def Reliable (call : M Json) (failures : List Failure) : Prop :=
  if failures.length ≤ 120 then ∀ d v, loads d = .ok v → (outcome call failures d).1 = .ret v
  else ∀ d, outcome call failures d = (.exn (.assertionError ""), failures.drop 121)

def written (failures : List Failure) : Text := failures.flatMap fun failure => failure.stdout

variable {maxTries : Nat}

section Runs

variable {args : List Text} {d s : Text} {failure : Failure} {failures : List Failure}
  {l : List (Event sig Text (List Failure))} {f : Unit → M Json}

theorem runWith_retry_failure :
    ∃ log', runWith (reply d) (retry args (maxTries + 1) >>= f) ⟨s, failure :: failures, l⟩ =
      runWith (reply d) (retry args maxTries >>= f) ⟨s ++ failure.stdout, failures, log'⟩ := by
  rw [retry.eq_def]
  exact ⟨_, congrArg (fun p => runWith (reply d) (p >>= f) _) (if_neg failure.failed)⟩

theorem runWith_retry_last :
    ∃ log', runWith (reply d) (retry args 0 >>= f) ⟨s, failure :: failures, l⟩ =
      (.exn (.assertionError ""), ⟨s ++ failure.stdout, failures, log'⟩) := by
  rw [retry.eq_def]
  exact ⟨_, congrArg (fun p => runWith (reply d) (p >>= f) _) (if_neg failure.failed)⟩

theorem runWith_retry (args : List Text) (h : failures.length ≤ maxTries) :
    ∃ log', runWith (reply d) (retry args maxTries >>= f) ⟨s, failures, l⟩ =
      runWith (reply d) (f ()) ⟨s ++ (written failures ++ d), [], log'⟩ := by
  induction failures generalizing maxTries s l with
  | nil =>
    rw [retry.eq_def]
    exact ⟨_, rfl⟩
  | cons failure failures ih =>
    cases maxTries with
    | zero => cases h
    | succ maxTries =>
      obtain ⟨log1, hfirst⟩ := runWith_retry_failure
      obtain ⟨log', hrest⟩ := ih (Nat.le_of_succ_le_succ h)
      refine ⟨log', hfirst.trans (hrest.trans ?_)⟩
      rw [written, written, flatMap_cons, append_assoc, append_assoc]

theorem runWith_retry_raises (args : List Text) (h : maxTries < failures.length) :
    ∃ s' log', runWith (reply d) (retry args maxTries >>= f) ⟨s, failures, l⟩ =
      (.exn (.assertionError ""), ⟨s', failures.drop (maxTries + 1), log'⟩) := by
  induction failures generalizing maxTries s l with
  | nil => cases h
  | cons failure failures ih =>
    cases maxTries with
    | zero =>
      obtain ⟨log', hlast⟩ := runWith_retry_last
      exact ⟨_, log', hlast⟩
    | succ maxTries =>
      obtain ⟨log1, hfirst⟩ := runWith_retry_failure
      obtain ⟨s', log', hrest⟩ := ih (Nat.lt_of_succ_lt_succ h)
      exact ⟨s', log', hfirst.trans hrest⟩

end Runs

theorem loads_eq_ok {text : Text} {v : Json} : loads text = .ok v ↔ Json.read text = some v := by
  rw [loads]
  cases Json.read text <;> simp

section Calls

variable {testdir socketPath command : Text} {args : List Text} {failures : List Failure} {d : Text}

theorem outcome_eq_ret_iff (h : failures.length ≤ 120) {v : Json} :
    (outcome (socketCommand testdir socketPath command args) failures d).1 = .ret v ↔
      Json.read (written failures ++ d) = some v := by
  obtain ⟨log, hrun⟩ := runWith_retry (runArgs testdir socketPath command args) (d := d) (s := []) (l := [])
    (f := fun _ => .read fun out => orThrow (loads out)) h
  have hret : (outcome (socketCommand testdir socketPath command args) failures d).1 =
      (runWith (reply d) (orThrow (loads (written failures ++ d)) : M Json)
        ⟨written failures ++ d, [], log⟩).1 := congrArg Prod.fst hrun
  rw [hret, ← loads_eq_ok]
  cases loads (written failures ++ d) <;> simp [orThrow, runWith]

theorem outcome_of_lt (h : 120 < failures.length) :
    outcome (socketCommand testdir socketPath command args) failures d =
      (.exn (.assertionError ""), failures.drop 121) := by
  obtain ⟨s, log, hrun⟩ := runWith_retry_raises (runArgs testdir socketPath command args) (d := d) (s := [])
    (l := []) (f := fun _ => .read fun out => orThrow (loads out)) h
  exact congrArg (fun r => (r.1, r.2.ext)) hrun

end Calls

/-- **Retries.** The call raises at the failure 121. With fewer it returns the value of the answer exactly
when the failures have written nothing but white space. -/
theorem reliable_iff (testdir socketPath command : Text) (args : List Text) (failures : List Failure) :
    Reliable (socketCommand testdir socketPath command args) failures ↔
      (failures.length ≤ 120 → ∀ failure ∈ failures, ∀ c ∈ failure.stdout, Json.isSpace c = true) := by
  rw [Reliable]
  by_cases h : failures.length ≤ 120
  · rw [if_pos h, forall_prop_of_true h]
    simp only [outcome_eq_ret_iff h, loads_eq_ok, Json.read_append_iff, written, mem_flatMap]
    constructor
    · exact fun hall failure hfailure c hc => hall c ⟨failure, hfailure, hc⟩
    · rintro hall c ⟨failure, hfailure, hc⟩
      exact hall failure hfailure c hc
  · rw [if_neg h]
    exact iff_of_true (fun d => outcome_of_lt (not_le.mp h)) fun hle => absurd hle h

def digitWritten : Failure := ⟨⟨some 22, ['1']⟩, by decide⟩

/-- The answer 2 is returned as 12. -/
theorem answer_joined_to_failure : loads ['2'] = .ok (.atom (.number ['2'])) ∧
      (outcome (socketCommand "/testdir".toList "/socket".toList "perf dump".toList []) [digitWritten]
        ['2']).1 = .ret (.atom (.number ['1', '2'])) :=
  ⟨rfl, rfl⟩

end ZbkcTasks.AdminSocket
