import Mathlib.Algebra.Order.BigOperators.Group.List
import ZbkcTasks.PyProg
import ZbkcTasks.PyText

/-! `run_fio` of `tasks/rbd_fio.py`, which maps images and writes a fio job for each. The device is the
first one found in the output of `rbd map`, and a clone is mapped with the buffer of its image. -/

namespace ZbkcTasks.RbdFio

open List Prog

/-- A scalar of the configuration: what `if` takes it for, and its text. -/
structure Scalar where
  truthy : Bool
  text : String

/-- The dictionary that `run_fio` reads, with the names of the entries that it does not read. -/
structure FioConfig where
  ioEngine : Option Scalar
  bs : Option Scalar
  fioIoSize : Option Scalar
  runtime : Option Scalar
  imageSize : Option Scalar
  formats : Option (List String)
  features : Option (List (List String))
  fioVersion : Option Scalar
  rw : Option Scalar
  testCloneIo : Option Scalar
  others : List String

/-- What is passed to `run_fio` for a configuration: a dictionary, or a text. -/
inductive FioArg
  | dict (config : FioConfig)
  | name (s : String)

/-- A line of the fio file. -/
inductive Line
  | header (name : String)
  | setting (key value : String)
  | flag (name : String)
  deriving DecidableEq

/-- An argument of a command. The shell sees a raw one as it is. -/
inductive Arg
  | text (s : String)
  | raw (s : String)
  deriving DecidableEq

/-- What `run_fio` asks of a host. -/
inductive Op
  | run (args : List Arg)
  | getSystemType
  | putFile (file : List Line)
  | showMapped

@[reducible] def Op.Ans : Op → Type
  | .run _ => Except CommandError (List Char)
  | .getSystemType => Except CommandError String
  | .putFile _ => Except CommandError Unit
  | .showMapped => Except CommandError (List String)

@[reducible] def sig : Sig where
  Op := Op
  Ans := Op.Ans

/-- The state is the fio file so far. -/
abbrev M := Prog sig (List Line) PyError

structure Context where
  sn : String
  rbdTestDir : String
  fioConfigName : String

/-- `config.get(key)`, if it is true. -/
def given (value : Option Scalar) : Option String := (value.filter (·.truthy)).map (·.text)

/-- `config.get(key) or default`. -/
def orDefault (value : Option Scalar) (default : String) : String := (given value).getD default

/-- A local variable that may not have been assigned. -/
def bound (name : String) : Option String → M String
  | some value => .ret value
  | none => .throw (.exception ("local variable '" ++ name ++ "' referenced before assignment"))

def append (lines : List Line) : M Unit := .read fun file => .write (file ++ lines) (.ret ())

def run (args : List Arg) : M (List Char) := .op (.run args) ofCommand

def cmd (args : List String) : M (List Char) := run (args.map Arg.text)

/-! ### Devices -/

/-- A match of `(/dev/rbd\d+)` at the beginning of the text. -/
def deviceAt (text : List Char) : Option String :=
  if "/dev/rbd".toList.isPrefixOf text ∧ (text.drop 8).takeWhile Char.isDigit ≠ [] then
    some ("/dev/rbd" ++ String.ofList ((text.drop 8).takeWhile Char.isDigit))
  else none

/-- `re.search(r'(/dev/rbd\d+)', text)`: the first match. -/
def searchDevice : List Char → Option String
  | [] => none
  | c :: text => (deviceAt (c :: text)).or (searchDevice text)

/-- Without a match, `group` is taken of `None`. -/
def deviceOf (text : List Char) : Except PyError String :=
  (searchDevice text).elim (.error (.attributeError "group")) .ok

/-! ### The jobs -/

def rbdName (ctx : Context) (frmt : String) (feature : List String) : String :=
  "i" ++ frmt ++ "f" ++ "-".intercalate feature ++ ctx.sn

def rbdSnapName (ctx : Context) (frmt : String) (feature : List String) : String :=
  rbdName ctx frmt feature ++ "@" ++ rbdName ctx frmt feature ++ "Snap"

def rbdCloneName (ctx : Context) (frmt : String) (feature : List String) : String :=
  rbdName ctx frmt feature ++ "Clone"

def createArgs (ctx : Context) (config : FioConfig) (frmt : String) (feature : List String) : List String :=
  ["rbd", "create", "--size", orDefault config.imageSize "10240", "--image", rbdName ctx frmt feature,
    "--image-format", frmt] ++ feature.flatMap fun x => ["--image-feature", x]

/-- Whether the clones are tested too. -/
def testsClone (config : FioConfig) : Bool := (given config.testCloneIo).isSome

/-- Snapshot, protect, clone. -/
def cloneImage (ctx : Context) (frmt : String) (feature : List String) : M Unit := do
  let _ ← cmd ["rbd", "snap", "create", rbdSnapName ctx frmt feature]
  let _ ← cmd ["rbd", "snap", "protect", rbdSnapName ctx frmt feature]
  let _ ← cmd ["rbd", "clone", rbdSnapName ctx frmt feature, rbdCloneName ctx frmt feature]
  return ()

/-- The section of a job on a target. -/
def jobLines (rw key target : String) : List Line :=
  [.header target, .setting "rw" rw, .setting key target]

def writeJob (config : FioConfig) (key target : String) : M Unit :=
  append (jobLines (orDefault config.rw "randrw") key target)

/-- The section of a clone. The variable `rw` has a value only if the configuration has one. -/
def writeCloneJob (config : FioConfig) (key target : String) : M Unit := do
  append [.header target]
  let rw ← bound "rw" (given config.rw)
  append [.setting "rw" rw, .setting key target]

def mapImage (name : String) : M (List Char) := cmd ["sudo", "rbd", "map", name]

/-- The output of the image's own map is still in the buffer. -/
def mapClone (ctx : Context) (frmt : String) (feature : List String) (out : List Char) : M String := do
  cloneImage ctx frmt feature
  let more ← mapImage (rbdCloneName ctx frmt feature)
  orThrow (deviceOf (out ++ more))

/-- The jobs of an image that is mapped to a device. -/
def mappedImage (ctx : Context) (config : FioConfig) (frmt : String) (feature : List String) : M Unit := do
  let out ← mapImage (rbdName ctx frmt feature)
  let rbdDev ← orThrow (deviceOf out)
  if testsClone config = true then do
    let rbdCloneDev ← mapClone ctx frmt feature out
    writeJob config "filename" rbdDev
    writeCloneJob config "filename" rbdCloneDev
  else writeJob config "filename" rbdDev

/-- The jobs of an image that fio reaches through librbd. -/
def libraryImage (ctx : Context) (config : FioConfig) (frmt : String) (feature : List String) : M Unit :=
  if testsClone config = true then do
    cloneImage ctx frmt feature
    writeJob config "rbdname" (rbdName ctx frmt feature)
    writeCloneJob config "rbdname" (rbdCloneName ctx frmt feature)
  else writeJob config "rbdname" (rbdName ctx frmt feature)

def oneImage (ctx : Context) (config : FioConfig) (ioengine frmt : String) (feature : List String) :
    M Unit := do
  let _ ← cmd (createArgs ctx config frmt feature)
  let _ ← cmd ["rbd", "info", rbdName ctx frmt feature]
  if ioengine ≠ "rbd" then mappedImage ctx config frmt feature else libraryImage ctx config frmt feature

def formatsOf (config : FioConfig) : List String := (config.formats.filter (· ≠ [])).getD ["1", "2"]

def featuresOf (config : FioConfig) : List (List String) :=
  (config.features.filter (· ≠ [])).getD [["layering"], ["striping"], ["exclusive-lock", "object-map"]]

/-- An image for each format and feature. -/
def allImages (ctx : Context) (config : FioConfig) (ioengine : String) : M Unit :=
  forEach (formatsOf config) fun frmt => forEach (featuresOf config) fun feature =>
    oneImage ctx config ioengine frmt feature

/-! ### The whole function -/

def globalLines (config : FioConfig) : List Line :=
  [.setting "ioengine" (orDefault config.ioEngine "sync"), .setting "bs" (orDefault config.bs "4k"),
    .setting "iodepth" "2", .setting "size" (orDefault config.fioIoSize "100m"), .flag "time_based",
    .setting "runtime" (orDefault config.runtime "1800"), .setting "allow_file_create" "0",
    .flag "norandommap"]

def librbdPackage (ioengine systemType : String) (rpmArgs debArgs : List String) : M Unit :=
  if systemType = "rpm" ∧ ioengine = "rbd" then cmd rpmArgs >>= fun _ => .ret ()
  else onlyIf (ioengine = "rbd") (cmd debArgs >>= fun _ => .ret ())

/-- Up to the end of the file; gives the engine and the system type. -/
def writeFile (ctx : Context) (config : FioConfig) : M (String × String) := do
  append (globalLines config)
  let ioengine ← bound "ioengine" (given config.ioEngine)
  onlyIf (ioengine = "rbd") (append [.setting "invalidate" "0"])
  let systemType ← .op .getSystemType ofCommand
  librbdPackage ioengine systemType ["sudo", "yum", "install", "librbd1-devel", "-y"]
    ["sudo", "apt-get", "-y", "--force-yes", "install", "librbd-dev"]
  onlyIf (ioengine = "rbd") (append [.setting "clientname" "admin", .setting "pool" "rbd"])
  allImages ctx config ioengine
  return (ioengine, systemType)

/-- Get fio, build it and run it. -/
def runTest (ctx : Context) (config : FioConfig) : M Unit := do
  let version := orDefault config.fioVersion "2.7"
  let _ ← run [.text "mkdir", .raw ctx.rbdTestDir]
  let _ ← run [.text "cd", .raw ctx.rbdTestDir, .raw ";", .text "wget",
    .text ("https://github.com/axboe/fio/archive/fio-" ++ version ++ ".tar.gz"), .raw ";",
    .raw "tar -xvf fio*tar.gz", .raw ";", .raw "cd fio-fio*", .text "configure", .raw ";", .text "make"]
  let _ ← cmd ["zbkc", "-s"]
  let _ ← run [.text "sudo",
    .raw (ctx.rbdTestDir ++ "/fio-fio-" ++ version ++ "/fio " ++ ctx.fioConfigName)]
  let _ ← cmd ["zbkc", "-s"]
  return ()

/-- Unmap every device that is mapped, and remove the directory. -/
def cleanUp (ctx : Context) (ioengine systemType : String) : M Unit := do
  let devices ← .op .showMapped ofCommand
  forEach devices fun device => cmd ["sudo", "rbd", "unmap", device] >>= fun _ => .ret ()
  let _ ← run [.text "rm", .text "-rf", .raw ctx.rbdTestDir]
  librbdPackage ioengine systemType ["sudo", "yum", "remove", "librbd1-devel", "-y"]
    ["sudo", "apt-get", "-y", "remove", "librbd-dev"]

def useFile (ctx : Context) (config : FioConfig) (ioengine systemType : String) : M Unit :=
  .read fun file => do
    .op (.putFile file) ofCommand
    finallyDo (runTest ctx config) (cleanUp ctx ioengine systemType)

/-- `run_fio(remote, config, rbd_test_dir)`. A text has no method `get`. -/
def runFio (ctx : Context) (arg : FioArg) : M Unit := do
  append [.header "global"]
  match arg with
  | .name _ => .throw (.attributeError "get")
  | .dict config => do
      let (ioengine, systemType) ← writeFile ctx config
      useFile ctx config ioengine systemType

/-! ### What `rbd map` prints -/

def deviceName (n : Nat) : String := "/dev/rbd" ++ toString n

/-- What `rbd map` prints. -/
def printedText (n : Nat) : List Char := (deviceName n).toList ++ ['\n']

/-- A match at the beginning is the first one. -/
theorem searchDevice_of_deviceAt {text : List Char} {device : String} (h : deviceAt text = some device) :
    searchDevice text = some device := by
  cases text with
  | nil =>
    have hnone : deviceAt [] = none := rfl
    rw [hnone] at h
    cases h
  | cons c text => rw [searchDevice, h, Option.some_or]

/-- **The first device** of a buffer is found, whatever was printed later. -/
theorem deviceOf_printedText (n : Nat) (more : List Char) :
    deviceOf (printedText n ++ more) = .ok (deviceName n) := by
  have htext : printedText n ++ more = "/dev/rbd".toList ++ (numeral n ++ '\n' :: more) := by
    rw [printedText, deviceName, String.toList_append, toList_toString]
    simp
  have hdigits : (numeral n ++ '\n' :: more).takeWhile Char.isDigit = numeral n := by
    rw [takeWhile_append_of_pos fun c hc => isDigit_of_mem_numeral hc]
    simp [Char.isDigit]
  have hat : deviceAt ("/dev/rbd".toList ++ (numeral n ++ '\n' :: more)) = some (deviceName n) := by
    have hstart : "/dev/rbd".toList.isPrefixOf ("/dev/rbd".toList ++ (numeral n ++ '\n' :: more)) = true :=
      isPrefixOf_iff_prefix.mpr (prefix_append _ _)
    have hdrop : ("/dev/rbd".toList ++ (numeral n ++ '\n' :: more)).drop 8 = numeral n ++ '\n' :: more :=
      rfl
    rw [deviceAt, hdrop, hdigits, if_pos ⟨hstart, numeral_ne_nil n⟩, deviceName, ← toList_toString,
      String.ofList_toList]
  rw [deviceOf, htext, searchDevice_of_deviceAt hat, Option.elim_some]

theorem deviceOf_printed (n : Nat) : deviceOf (printedText n) = .ok (deviceName n) := by
  have hfound := deviceOf_printedText n []
  rwa [append_nil] at hfound

theorem deviceName_injective : Function.Injective deviceName := by
  intro i j h
  have hdigits := congrArg String.toList h
  rw [deviceName, deviceName, String.toList_append, String.toList_append, toList_toString,
    toList_toString] at hdigits
  exact numeral_injective (append_cancel_left hdigits)

/-! ### The sections of a file -/

def Line.isSection : Line → Bool
  | .header _ => true
  | _ => false

/-- The sections of a file with their lines. -/
def sections : List Line → List (String × List Line)
  | [] => []
  | .header name :: rest => (name, rest.takeWhile fun line => !line.isSection) :: sections rest
  | _ :: rest => sections rest

def Line.filename : Line → Option String
  | .setting key value => if key = "filename" then some value else none
  | _ => none

/-- The jobs that fio reads from a file, with their devices. -/
def jobs (file : List Line) : List (String × List String) :=
  ((sections file).filter fun job => job.1 ≠ "global").map fun job => (job.1, job.2.filterMap Line.filename)

/-- What can follow other lines without adding to their last section. -/
def Opens (lines : List Line) : Prop := ∀ line ∈ lines.head?, line.isSection = true

variable {ys : List Line} {ioengine : String}

theorem takeWhile_append_opens (xs : List Line) (hys : Opens ys) :
    (xs ++ ys).takeWhile (fun line => !line.isSection) = xs.takeWhile fun line => !line.isSection := by
  induction xs with
  | nil =>
    cases ys with
    | nil => rfl
    | cons line ys =>
      have hline : line.isSection = true := hys line rfl
      rw [nil_append, takeWhile_cons, hline]
      rfl
  | cons line xs ih => rw [cons_append, takeWhile_cons, takeWhile_cons, ih]

theorem sections_append (xs : List Line) (hys : Opens ys) :
    sections (xs ++ ys) = sections xs ++ sections ys := by
  induction xs with
  | nil => rfl
  | cons line xs ih =>
    cases line with
    | header name =>
      rw [cons_append, sections, sections, takeWhile_append_opens xs hys, ih, cons_append]
    | setting | flag => exact ih

theorem jobs_append (xs : List Line) (hys : Opens ys) : jobs (xs ++ ys) = jobs xs ++ jobs ys := by
  rw [jobs, sections_append xs hys, filter_append, map_append]
  rfl

/-- What is written for an image that was mapped to device `n`. -/
def imageLines (config : FioConfig) (n : Nat) : List Line :=
  jobLines (orDefault config.rw "randrw") "filename" (deviceName n) ++
    if testsClone config = true then jobLines (orDefault config.rw "randrw") "filename" (deviceName n)
    else []

def deviceJob (n : Nat) : String × List String := (deviceName n, [deviceName n])

def imageJobs (config : FioConfig) (n : Nat) : List (String × List String) :=
  if testsClone config = true then [deviceJob n, deviceJob n] else [deviceJob n]

theorem opens_images (config : FioConfig) (images : List Nat) :
    Opens (images.flatMap (imageLines config)) := by
  cases images with
  | nil => exact nofun
  | cons n images =>
    rintro line ⟨⟩
    rfl

theorem deviceName_ne_global (n : Nat) : deviceName n ≠ "global" := by
  intro h
  have hchars := congrArg String.toList h
  rw [deviceName, String.toList_append] at hchars
  cases hchars

theorem jobs_jobLines (rw : String) (n : Nat) :
    jobs (jobLines rw "filename" (deviceName n)) = [deviceJob n] := by
  simp [jobs, jobLines, sections, deviceName_ne_global, Line.isSection, Line.filename, deviceJob]

/-- The jobs of the images, read back. -/
theorem jobs_images (config : FioConfig) (images : List Nat) :
    jobs (images.flatMap (imageLines config)) = images.flatMap (imageJobs config) := by
  induction images with
  | nil => rfl
  | cons n images ih =>
    rw [flatMap_cons, flatMap_cons, jobs_append _ (opens_images config images), ih, imageLines,
      imageJobs]
    split
    · rw [jobs_append _ (by rintro line ⟨⟩; rfl), jobs_jobLines]
      rfl
    · rw [append_nil, jobs_jobLines]

/-! ### Runs -/

/-- The devices that were printed, in the order of the maps, and the file that was put on the remote. -/
structure Seen where
  printed : List Nat
  file : Option (List Line)

/-- Whether the command is `sudo rbd map`. -/
def isMap (args : List Arg) : Bool := args.take 3 == [.text "sudo", .text "rbd", .text "map"]

/-- Every command succeeds, and `rbd map` prints a device that was not there before. -/
def fioEnv : Env sig (List Line) Seen
  | .run args, s, x, a, s', x' => s' = s ∧
      if isMap args = true then
        ∃ n, n ∉ x.printed ∧ a = .ok (printedText n) ∧ x' = { x with printed := x.printed ++ [n] }
      else x' = x ∧ ∃ out, a = .ok out
  | .getSystemType, s, x, a, s', x' => s' = s ∧ x' = x ∧ ∃ type, a = .ok type
  | .putFile file, s, x, a, s', x' => s' = s ∧ x' = { x with file := some file } ∧ a = .ok ()
  | .showMapped, s, x, a, s', x' => s' = s ∧ x' = x ∧ ∃ devices, a = .ok devices

section Runs

variable {ctx : Context} {config : FioConfig} {α β : Type} {w : World sig (List Line) Seen}

/-- Every run returns, as `P` says. -/
abbrev runs (p : M α) (P : α → World sig (List Line) Seen → Prop) (w : World sig (List Line) Seen) : Prop :=
  wp fioEnv (fun _ _ _ => True) p (returns P) w

/-- The program may raise before the file is put, but only if clones are tested. -/
abbrev does (config : FioConfig) (p : M α) (P : α → World sig (List Line) Seen → Prop)
    (w : World sig (List Line) Seen) : Prop :=
  wp fioEnv (fun _ _ _ => True) p (gives P fun w' => w'.ext.file = none ∧ testsClone config = true) w

/-- The program returns and neither writes to the file nor maps an image. -/
abbrev Quiet (p : M α) : Prop := ∀ w, runs p (fun _ w' => w'.st = w.st ∧ w'.ext = w.ext) w

/-- Quiet programs compose. -/
theorem Quiet.bind {p : M α} {f : α → M β} (hp : Quiet p) (hf : ∀ a, Quiet (f a)) : Quiet (p >>= f) := by
  intro w
  apply wp_bind_returns (hp w)
  rintro a w1 ⟨hst1, hext1⟩
  apply wp_result _ (hf a w1)
  rintro b w2 ⟨hst2, hext2⟩
  exact ⟨hst2.trans hst1, hext2.trans hext1⟩

theorem quiet_ret (a : α) : Quiet (.ret a) := fun _ => ⟨rfl, rfl⟩

theorem quiet_run {args : List Arg} (hargs : isMap args = false) : Quiet (run args) := by
  intro w
  refine ⟨trivial, ?_⟩
  rintro a s x ⟨rfl, hstep⟩
  rw [if_neg (by rw [hargs]; nofun)] at hstep
  obtain ⟨rfl, out, rfl⟩ := hstep
  exact ⟨rfl, rfl⟩

theorem quiet_cmd {args : List String} (hargs : isMap (args.map Arg.text) = false) : Quiet (cmd args) :=
  quiet_run hargs

theorem quiet_getSystemType : Quiet (.op .getSystemType ofCommand : M String) := by
  intro w
  refine ⟨trivial, ?_⟩
  rintro a s x ⟨rfl, rfl, type, rfl⟩
  exact ⟨rfl, rfl⟩

theorem quiet_librbdPackage {systemType : String} {rpmArgs debArgs : List String}
    (hrpm : isMap (rpmArgs.map Arg.text) = false) (hdeb : isMap (debArgs.map Arg.text) = false) :
    Quiet (librbdPackage ioengine systemType rpmArgs debArgs) := by
  intro w
  rw [librbdPackage, onlyIf]
  split
  · exact (quiet_cmd hrpm).bind (fun _ => quiet_ret ()) w
  · split
    · exact (quiet_cmd hdeb).bind (fun _ => quiet_ret ()) w
    · exact ⟨rfl, rfl⟩

theorem quiet_cloneImage (frmt : String) (feature : List String) :
    Quiet (cloneImage ctx frmt feature) :=
  (quiet_cmd rfl).bind fun _ => (quiet_cmd rfl).bind fun _ => (quiet_cmd rfl).bind fun _ => quiet_ret ()

theorem runs_append (lines : List Line) :
    runs (append lines) (fun _ w' => w'.st = w.st ++ lines ∧ w'.ext = w.ext) w := ⟨rfl, rfl⟩

theorem runs_mapImage (name : String) :
    runs (mapImage name) (fun out w' => ∃ n, out = printedText n ∧ w'.st = w.st ∧
      w'.ext = { w.ext with printed := w.ext.printed ++ [n] }) w := by
  refine ⟨trivial, ?_⟩
  rintro a s x ⟨rfl, n, -, rfl, rfl⟩
  exact ⟨n, rfl, rfl, rfl⟩

/-- The clone gets the device of the image. -/
theorem runs_mapClone (frmt : String) (feature : List String) (n : Nat) :
    runs (mapClone ctx frmt feature (printedText n)) (fun device w' => device = deviceName n ∧
      w'.st = w.st ∧ ∃ n', w'.ext = { w.ext with printed := w.ext.printed ++ [n'] }) w := by
  apply wp_bind_returns (quiet_cloneImage frmt feature w)
  rintro _ w1 ⟨hst1, hext1⟩
  apply wp_bind_returns (runs_mapImage _)
  rintro out w2 ⟨n', rfl, hst2, hext2⟩
  rw [deviceOf_printedText]
  exact ⟨rfl, hst2.trans hst1, n', by rw [hext2, hext1]⟩

/-- So many images are mapped and written. Without clones, each is on the device printed for it. -/
structure Mapped (config : FioConfig) (count : Nat) (s s' : List Line) (x x' : Seen)
    (images new : List Nat) : Prop where
  length : images.length = count
  file : s' = s ++ images.flatMap (imageLines config)
  seen : x' = { x with printed := x.printed ++ new }
  devices : testsClone config = false → new = images

/-- Images mapped one after the other. -/
theorem Mapped.trans {k l : Nat} {s s1 s' : List Line} {x x1 x' : Seen} {images new images' new' : List Nat}
    (h : Mapped config k s s1 x x1 images new) (h' : Mapped config l s1 s' x1 x' images' new') :
    Mapped config (k + l) s s' x x' (images ++ images') (new ++ new') := by
  constructor
  · rw [length_append, h.length, h'.length]
  · rw [h'.file, h.file, flatMap_append, append_assoc]
  · rw [h'.seen, h.seen, append_assoc]
  · intro hclone
    rw [h.devices hclone, h'.devices hclone]

/-- The program maps so many images, or raises on the way if clones are tested. -/
abbrev Maps (config : FioConfig) (count : Nat) (p : M Unit) : Prop :=
  ∀ w : World sig (List Line) Seen, w.ext.file = none →
    does config p (fun _ w' => ∃ images new, Mapped config count w.st w'.st w.ext w'.ext images new) w

theorem Maps.forEach {k : Nat} {f : β → M Unit} (hf : ∀ b, Maps config k (f b)) (xs : List β) :
    Maps config (xs.length * k) (forEach xs f) := by
  induction xs with
  | nil =>
    intro w _
    exact ⟨[], [], by simp, by simp, by simp, fun _ => rfl⟩
  | cons b xs ih =>
    intro w hfile
    apply wp_seq (hf b w hfile)
    rintro _ w1 ⟨images, new, hfirst⟩
    have hfile1 : w1.ext.file = none := by rw [hfirst.seen, hfile]
    apply wp_result _ (ih w1 hfile1)
    rintro _ w2 ⟨images', new', hrest⟩
    have hcount : k + xs.length * k = (b :: xs).length * k := by
      rw [length_cons, Nat.succ_mul, Nat.add_comm]
    exact ⟨_, _, hcount ▸ hfirst.trans hrest⟩

/-- **One image**, with its clone if these are tested. -/
theorem maps_mappedImage (frmt : String) (feature : List String) :
    Maps config 1 (mappedImage ctx config frmt feature) := by
  intro w hfile
  apply wp_bind_returns (runs_mapImage _)
  rintro out w1 ⟨n, rfl, hst1, hext1⟩
  rw [deviceOf_printed]
  split
  next hclone =>
    apply wp_bind_returns (runs_mapClone frmt feature n)
    rintro _ w2 ⟨rfl, hst2, n', hext2⟩
    apply wp_bind_returns (runs_append _)
    rintro _ w3 ⟨hst3, hext3⟩
    apply wp_bind_returns (runs_append _)
    rintro _ w4 ⟨hst4, hext4⟩
    cases hrw : given config.rw with
    | none =>
      refine ⟨?_, hclone⟩
      rw [hext4, hext3, hext2, hext1, hfile]
    | some rw =>
      refine ⟨[n], [n, n'], rfl, ?_, ?_, fun h => absurd hclone (by rw [h]; nofun)⟩
      · rw [hst4, hst3, hst2, hst1]
        simp [imageLines, hclone, jobLines, orDefault, hrw]
      · rw [hext4, hext3, hext2, hext1, append_assoc]
        rfl
  next hclone =>
    refine ⟨[n], [n], rfl, ?_, hext1, fun _ => rfl⟩
    rw [hst1]
    simp [imageLines, hclone]

theorem maps_oneImage (hengine : ioengine ≠ "rbd") (frmt : String) (feature : List String) :
    Maps config 1 (oneImage ctx config ioengine frmt feature) := by
  intro w hfile
  apply wp_bind_returns (quiet_cmd rfl w)
  rintro _ w1 ⟨hst1, hext1⟩
  apply wp_bind_returns (quiet_cmd rfl w1)
  rintro _ w2 ⟨hst2, hext2⟩
  rw [if_pos hengine, ← hst1, ← hst2, ← hext1, ← hext2]
  exact maps_mappedImage frmt feature w2 (by rw [hext2, hext1, hfile])

def imageCount (config : FioConfig) : Nat := (formatsOf config).length * (featuresOf config).length

theorem getD_filter_ne_nil {γ : Type} [DecidableEq γ] {default : List γ} (hdefault : default ≠ [])
    (xs : Option (List γ)) : (xs.filter (· ≠ [])).getD default ≠ [] := by
  cases hxs : xs.filter (· ≠ []) with
  | none => exact hdefault
  | some ys => exact of_decide_eq_true (Option.filter_eq_some_iff.mp hxs).2

theorem formatsOf_ne_nil (config : FioConfig) : formatsOf config ≠ [] :=
  getD_filter_ne_nil (cons_ne_nil _ _) _

theorem featuresOf_ne_nil (config : FioConfig) : featuresOf config ≠ [] :=
  getD_filter_ne_nil (cons_ne_nil _ _) _

theorem imageCount_pos (config : FioConfig) : 0 < imageCount config :=
  Nat.mul_pos (length_pos_iff.mpr (formatsOf_ne_nil config))
    (length_pos_iff.mpr (featuresOf_ne_nil config))

/-- **All images**, by the two loops. -/
theorem maps_allImages (hengine : ioengine ≠ "rbd") :
    Maps config (imageCount config) (allImages ctx config ioengine) := by
  apply Maps.forEach
  intro frmt
  rw [← Nat.mul_one (featuresOf config).length]
  exact Maps.forEach (fun feature => maps_oneImage hengine frmt feature) (featuresOf config)

theorem does_writeFile (hgiven : given config.ioEngine = some ioengine) (hengine : ioengine ≠ "rbd")
    (hfile : w.ext.file = none) : does config (writeFile ctx config) (fun _ w' => ∃ images new,
      Mapped config (imageCount config) (w.st ++ globalLines config) w'.st w.ext w'.ext images new) w := by
  apply wp_bind_returns (runs_append _)
  rintro _ w1 ⟨hst1, hext1⟩
  rw [hgiven, bound, ret_bind, onlyIf, if_neg hengine, ret_bind]
  apply wp_bind_returns (quiet_getSystemType w1)
  rintro systemType w2 ⟨hst2, hext2⟩
  apply wp_bind_returns (quiet_librbdPackage rfl rfl w2)
  rintro _ w3 ⟨hst3, hext3⟩
  rw [onlyIf, if_neg hengine, ret_bind]
  have hfile3 : w3.ext.file = none := by rw [hext3, hext2, hext1, hfile]
  apply wp_seq (maps_allImages hengine w3 hfile3)
  rintro _ w4 ⟨images, new, hmapped⟩
  rw [hst3, hst2, hst1, hext3, hext2, hext1] at hmapped
  exact ⟨images, new, hmapped⟩

theorem Quiet.finallyDo {p : M α} {q : M Unit} (hp : Quiet p) (hq : Quiet q) : Quiet (p.finallyDo q) := by
  intro w
  rw [runs, wp_finallyDo]
  refine wp_mono ?_ (hp w)
  rintro (a | e | _) w1 h1
  · refine wp_mono ?_ (hq w1)
    rintro (_ | e | _) w2 h2
    · exact ⟨h2.1.trans h1.1, h2.2.trans h1.2⟩
    · exact h2
    · exact h2
  · exact h1.elim
  · exact h1

theorem quiet_runTest : Quiet (runTest ctx config) :=
  (quiet_run rfl).bind fun _ => (quiet_run rfl).bind fun _ => (quiet_cmd rfl).bind fun _ =>
    (quiet_run rfl).bind fun _ => (quiet_cmd rfl).bind fun _ => quiet_ret ()

theorem quiet_cleanUp (ioengine systemType : String) : Quiet (cleanUp ctx ioengine systemType) := by
  have hshow : Quiet (.op .showMapped ofCommand : M (List String)) := by
    intro w
    refine ⟨trivial, ?_⟩
    rintro a s x ⟨rfl, rfl, devices, rfl⟩
    exact ⟨rfl, rfl⟩
  refine hshow.bind fun devices => Quiet.bind ?_ fun _ => (quiet_run rfl).bind fun _ =>
    quiet_librbdPackage rfl rfl
  induction devices with
  | nil => exact quiet_ret ()
  | cons device devices ih => exact ((quiet_cmd rfl).bind fun _ => quiet_ret ()).bind fun _ => ih

/-- The file is sent as it was written. -/
theorem runs_useFile (ioengine systemType : String) :
    runs (useFile ctx config ioengine systemType)
      (fun _ w' => w'.ext = { w.ext with file := some w.st }) w := by
  refine ⟨trivial, ?_⟩
  rintro a s x ⟨rfl, rfl, rfl⟩
  apply wp_result _ ((quiet_runTest.finallyDo (quiet_cleanUp ioengine systemType)) _)
  exact fun _ w' h => h.2

/-- The file has exactly one job for each device that was printed, and the job is on that device. -/
def RightJobs (x : Seen) : Prop :=
  ∃ file, x.file = some file ∧ jobs file = x.printed.map deviceJob ∧ ((jobs file).map Prod.fst).Nodup

/-- **The file.** When it is put, it has the global section and the lines of each image. -/
theorem does_runFio (hgiven : given config.ioEngine = some ioengine) (hengine : ioengine ≠ "rbd")
    (hst : w.st = []) (hext : w.ext = ⟨[], none⟩) :
    does config (runFio ctx (.dict config)) (fun _ w' => ∃ images, images.length = imageCount config ∧
      w'.ext.file = some ((.header "global" :: globalLines config) ++ images.flatMap (imageLines config)) ∧
      (testsClone config = false → w'.ext.printed = images)) w := by
  apply wp_bind_returns (runs_append _)
  rintro _ w1 ⟨hst1, hext1⟩
  apply wp_seq (does_writeFile hgiven hengine (by rw [hext1, hext]))
  rintro ⟨engine, systemType⟩ w2 ⟨images, new, hmapped⟩
  apply wp_weaken _ (fun _ h => h.elim) (runs_useFile engine systemType)
  intro _ w3 hext3
  refine ⟨images, hmapped.length, ?_, fun hclone => ?_⟩
  · rw [hext3, hmapped.file, hst1, hst]
    rfl
  · rw [hext3, hmapped.seen, hext1, hext, ← hmapped.devices hclone]
    rfl

/-! ### When the function returns -/

/-- The program raises nothing. -/
abbrev Returns (p : M α) : Prop := ∀ w, runs p (fun _ _ => True) w

theorem Returns.bind {p : M α} {f : α → M β} (hp : Returns p) (hf : ∀ a, Returns (f a)) :
    Returns (p >>= f) :=
  fun w => wp_bind_returns (hp w) fun a w1 _ => hf a w1

theorem Quiet.returns {p : M α} (hp : Quiet p) : Returns p :=
  fun w => wp_result (fun _ _ _ => trivial) (hp w)

theorem returns_append (lines : List Line) : Returns (append lines) := fun _ => trivial

theorem returns_onlyIf {c : Prop} [Decidable c] {p : M Unit} (hp : Returns p) : Returns (onlyIf c p) := by
  rw [onlyIf]
  split
  · exact hp
  · exact fun _ => trivial

theorem returns_forEach {f : β → M Unit} (hf : ∀ b, Returns (f b)) (xs : List β) :
    Returns (forEach xs f) := by
  induction xs with
  | nil => exact fun _ => trivial
  | cons b xs ih => exact (hf b).bind fun _ => ih

/-- There is a value for the variable `rw` when the section of a clone needs it. -/
abbrev Clonable (config : FioConfig) : Prop := testsClone config = true → (given config.rw).isSome = true

theorem returns_writeCloneJob (hrw : (given config.rw).isSome = true) (key target : String) :
    Returns (writeCloneJob config key target) := by
  obtain ⟨rw, hrw⟩ := Option.isSome_iff_exists.mp hrw
  rw [writeCloneJob, hrw]
  exact (returns_append _).bind fun _ => returns_append _

theorem returns_libraryImage (hrw : Clonable config) (frmt : String) (feature : List String) :
    Returns (libraryImage ctx config frmt feature) := by
  rw [libraryImage]
  split
  next hclone =>
    exact (quiet_cloneImage frmt feature).returns.bind fun _ => (returns_append _).bind fun _ =>
      returns_writeCloneJob (hrw hclone) _ _
  next => exact returns_append _

/-- No device is missed, so only a clone without `rw` can raise. -/
theorem returns_mappedImage (hrw : Clonable config) (frmt : String) (feature : List String) :
    Returns (mappedImage ctx config frmt feature) := by
  intro w
  apply wp_bind_returns (runs_mapImage _)
  rintro out w1 ⟨n, rfl, -⟩
  rw [deviceOf_printed]
  split
  next hclone =>
    apply wp_bind_returns (runs_mapClone frmt feature n)
    exact fun device w2 _ =>
      (returns_append _).bind (fun _ => returns_writeCloneJob (hrw hclone) _ device) w2
  next => exact trivial

theorem returns_allImages (hrw : Clonable config) (ioengine : String) :
    Returns (allImages ctx config ioengine) := by
  refine returns_forEach (fun frmt => returns_forEach (fun feature => ?_) _) _
  refine (quiet_cmd rfl).returns.bind fun _ => (quiet_cmd rfl).returns.bind fun _ => ?_
  split
  · exact returns_mappedImage hrw frmt feature
  · exact returns_libraryImage hrw frmt feature

/-- `run_fio` is given a dictionary with an engine, and with a value for `rw` if clones are tested. -/
def FioArg.completes : FioArg → Bool
  | .name _ => false
  | .dict config => (given config.ioEngine).isSome && (!testsClone config || (given config.rw).isSome)

/-- **Completion.** When all commands succeed, `run_fio` returns for such an argument. -/
theorem returns_runFio (ctx : Context) {arg : FioArg} (h : arg.completes = true) :
    Returns (runFio ctx arg) := by
  cases arg with
  | name s => cases h
  | dict config =>
    have hcompletes : (given config.ioEngine).isSome = true ∧ Clonable config := by
      simpa [FioArg.completes, Clonable, imp_iff_not_or] using h
    obtain ⟨ioengine, hengine⟩ := Option.isSome_iff_exists.mp hcompletes.1
    have hwrite : Returns (writeFile ctx config) := by
      rw [writeFile, hengine]
      exact (returns_append _).bind fun _ => (returns_onlyIf (returns_append _)).bind fun _ =>
        quiet_getSystemType.returns.bind fun _ => (quiet_librbdPackage rfl rfl).returns.bind fun _ =>
          (returns_onlyIf (returns_append _)).bind fun _ =>
            (returns_allImages hcompletes.2 ioengine).bind fun _ _ => trivial
    refine (returns_append _).bind fun _ => hwrite.bind fun used w => ?_
    exact wp_result (fun _ _ _ => trivial) (runs_useFile used.1 used.2)

end Runs

theorem jobs_file (config : FioConfig) (images : List Nat) :
    jobs ((.header "global" :: globalLines config) ++ images.flatMap (imageLines config)) =
      images.flatMap (imageJobs config) := by
  rw [jobs_append _ (opens_images config images), jobs_images]
  rfl

def fioReply : (o : Op) → List Line → Seen → o.Ans × List Line × Seen
  | .run args, s, x =>
      if isMap args = true then
        (.ok (printedText (x.printed.sum + 1)), s, { x with printed := x.printed ++ [x.printed.sum + 1] })
      else (.ok [], s, x)
  | .getSystemType, s, x => (.ok "deb", s, x)
  | .putFile file, s, x => (.ok (), s, { x with file := some file })
  | .showMapped, s, x => (.ok [], s, x)

theorem fioEnv_fioReply (o : Op) (s : List Line) (x : Seen) :
    fioEnv o s x (fioReply o s x).1 (fioReply o s x).2.1 (fioReply o s x).2.2 := by
  cases o with
  | run args =>
    by_cases hmap : isMap args = true
    · have hnew : x.printed.sum + 1 ∉ x.printed := by
        intro hmem
        have hle := le_sum_of_mem hmem
        omega
      rw [fioEnv, fioReply, if_pos hmap, if_pos hmap]
      exact ⟨rfl, _, hnew, rfl, rfl⟩
    · rw [fioEnv, fioReply, if_neg hmap, if_neg hmap]
      exact ⟨rfl, rfl, [], rfl⟩
  | getSystemType | showMapped => exact ⟨rfl, rfl, _, rfl⟩
  | putFile file => exact ⟨rfl, rfl, rfl⟩

theorem nodup_step {o : Op} {s s' : List Line} {x x' : Seen} {a : o.Ans} (hstep : fioEnv o s x a s' x')
    (h : x.printed.Nodup) : x'.printed.Nodup := by
  cases o with
  | run args =>
    obtain ⟨-, hstep⟩ := hstep
    split at hstep
    · obtain ⟨n, hn, -, rfl⟩ := hstep
      exact nodup_append_comm.mp (nodup_cons.mpr ⟨hn, h⟩)
    · obtain ⟨rfl, -⟩ := hstep
      exact h
  | getSystemType | putFile | showMapped =>
    obtain ⟨-, rfl, -⟩ := hstep
    exact h

/-- No device is printed twice in a run. -/
theorem nodup_printed {α : Type} {p : M α} {w w' : World sig (List Line) Seen} {r : Outcome PyError α}
    (hrun : Exec fioEnv p w r w') (h : w.ext.printed.Nodup) : w'.ext.printed.Nodup := by
  induction hrun with
  | ret | throw | cut => exact h
  | read _ ih | write _ ih => exact ih h
  | op hstep _ ih => exact ih (nodup_step hstep h)

/-- **The devices of the jobs.** The file has one job per image and clone, each on the device that was
printed for it, exactly when no clones are tested. -/
theorem jobs_name_devices_iff (ctx : Context) (config : FioConfig) {ioengine : String}
    (hgiven : given config.ioEngine = some ioengine) (hengine : ioengine ≠ "rbd") :
    (∀ r w, Exec fioEnv (runFio ctx (.dict config)) ⟨[], ⟨[], none⟩, []⟩ r w → RightJobs w.ext) ↔
      testsClone config = false := by
  constructor
  · intro h
    by_contra hclone
    have hclone : testsClone config = true := by simpa using hclone
    have htotal : ∀ o s x, ∃ a s' x', fioEnv o s x a s' x' := fun o s x => ⟨_, _, _, fioEnv_fioReply o s x⟩
    obtain ⟨r, w, hrun⟩ := exists_exec htotal (runFio ctx (.dict config)) ⟨[], ⟨[], none⟩, []⟩
    obtain ⟨file, hfile, -, hnodup⟩ := h r w hrun
    have hend := wp_post (does_runFio hgiven hengine rfl rfl) hrun
    cases r with
    | exn | cut => exact absurd (hend.1.symm.trans hfile) nofun
    | ret u =>
      obtain ⟨images, hcount, hput, -⟩ := hend
      rw [Option.some.inj (hfile.symm.trans hput), jobs_file] at hnodup
      cases images with
      | nil => exact absurd hcount (imageCount_pos config).ne
      | cons n images =>
        rw [flatMap_cons, imageJobs, if_pos hclone] at hnodup
        exact (nodup_cons.mp hnodup).1 (.head _)
  · intro hclone r w hrun
    have hnot : ¬ testsClone config = true := by rw [hclone]; nofun
    have hend := wp_post (does_runFio hgiven hengine rfl rfl) hrun
    cases r with
    | exn | cut => exact absurd hend.2 hnot
    | ret u =>
      obtain ⟨images, -, hfile, hprinted⟩ := hend
      obtain rfl := hprinted hclone
      have hjobs : jobs ((.header "global" :: globalLines config) ++
          w.ext.printed.flatMap (imageLines config)) = w.ext.printed.map deviceJob := by
        have hone : imageJobs config = fun n => [deviceJob n] := funext fun n => if_neg hnot
        rw [jobs_file, hone]
        exact flatMap_pure_eq_map deviceJob _
      refine ⟨_, hfile, hjobs, ?_⟩
      rw [hjobs, map_map]
      exact (nodup_printed hrun nodup_nil).map deviceName_injective

def aContext : Context := ⟨"smithi001", "/tmp/zbkctest/rbd_fio_test", "/tmp/fio_rbd_Tz81"⟩

def oneLayered (testCloneIo : Option Scalar) : FioConfig where
  ioEngine := some ⟨true, "sync"⟩
  bs := none
  fioIoSize := none
  runtime := none
  imageSize := none
  formats := some ["2"]
  features := some [["layering"]]
  fioVersion := none
  rw := some ⟨true, "randrw"⟩
  testCloneIo := testCloneIo
  others := []

theorem jobs_name_devices_one : given (oneLayered none).ioEngine = some "sync" ∧ "sync" ≠ "rbd" ∧
      ((∀ r w, Exec fioEnv (runFio aContext (.dict (oneLayered none))) ⟨[], ⟨[], none⟩, []⟩ r w →
        RightJobs w.ext) ↔ testsClone (oneLayered none) = false) :=
  ⟨rfl, by decide, jobs_name_devices_iff _ _ rfl (by decide)⟩

/-- The clone is mapped to `/dev/rbd2`, and its job is on `/dev/rbd1`, as that of the image is. -/
theorem clone_job_on_image_device :
    ∃ w file, Exec fioEnv (runFio aContext (.dict (oneLayered (some ⟨true, "1"⟩)))) ⟨[], ⟨[], none⟩, []⟩
        (.ret ()) w ∧
      w.ext.printed = [1, 2] ∧ w.ext.file = some file ∧ jobs file = [deviceJob 1, deviceJob 1] := by
  have hrun := exec_runWith fioEnv_fioReply
    (runFio aContext (.dict (oneLayered (some ⟨true, "1"⟩)))) ⟨[], ⟨[], none⟩, []⟩
  exact ⟨_, _, hrun, rfl, rfl, by decide⟩

end ZbkcTasks.RbdFio
