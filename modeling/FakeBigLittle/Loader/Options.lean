import FakeBigLittle.Loader.Spec

/-!
# The option loop

`getopt_long` over the table of `main`, and the `switch` behind it.
-/

namespace FakeBigLittle

open CString

/-! ## The table -/

/-- The options, named for what they set. -/
inductive Opt where
  | bigList | littleList | eppBig | eppLittle | flat | noEpp | strict | mode | bigComm
  | littleComm | sliceBig | sliceLittle | threshMs | interval | duration | dryRun | persist
  | help
  deriving DecidableEq

/-- `opts`: the name of an option and whether it takes an argument. -/
def opts : List (Text × Bool × Opt) :=
  [("big".toList, true, .bigList),
    ("little".toList, true, .littleList),
    ("epp-big".toList, true, .eppBig),
    ("epp-little".toList, true, .eppLittle),
    ("flat".toList, false, .flat),
    ("no-epp".toList, false, .noEpp),
    ("strict".toList, false, .strict),
    ("mode".toList, true, .mode),
    ("big-comm".toList, true, .bigComm),
    ("little-comm".toList, true, .littleComm),
    ("slice-big".toList, true, .sliceBig),
    ("slice-little".toList, true, .sliceLittle),
    ("thresh-ms".toList, true, .threshMs),
    ("interval".toList, true, .interval),
    ("duration".toList, true, .duration),
    ("dry-run".toList, false, .dryRun),
    ("persist".toList, false, .persist),
    ("help".toList, false, .help)]

/-- The option with this name, or else the only one whose name starts so. -/
def findOpt (name : Text) : Option (Bool × Opt) :=
  match opts.find? fun o => o.1 == name with
  | some o => some o.2
  | none =>
    match opts.filter fun o => name.isPrefixOf o.1 with
    | [o] => some o.2
    | _ => none

/-! ## The loop -/

inductive Quit where
  | usage
  | die (e : Fatal)
  deriving DecidableEq

def modeFromName (s : Text) : Except Fatal ClassifyMode :=
  if s = "flat".toList then .ok .flat
  else if s = "comm".toList then .ok .comm
  else if s = "adaptive".toList then .ok .adaptive
  else if s = "hybrid".toList then .ok .hybrid
  else .error (.unknownMode s)

/-- The `switch`. `positive` says whether `atof` makes a positive number of a text. -/
def setOption (positive : Text → Bool) (o : Options) (optarg : Text) :
    Opt → Except Quit Options
  | .bigList => .ok { o with bigList := some optarg }
  | .littleList => .ok { o with littleList := some optarg }
  | .eppBig => .ok { o with eppBig := optarg }
  | .eppLittle => .ok { o with eppLittle := optarg }
  | .flat => .ok { o with flat := true }
  | .noEpp => .ok { o with noEpp := true }
  | .strict => .ok { o with strict := true }
  | .mode =>
    match modeFromName optarg with
    | .error e => .error (.die e)
    | .ok mode => .ok { o with mode := mode }
  | .bigComm => .ok { o with bigComm := some optarg }
  | .littleComm => .ok { o with littleComm := some optarg }
  | .sliceBig => .ok { o with sliceBig := UInt32.ofInt (atoi optarg) }
  | .sliceLittle => .ok { o with sliceLittle := UInt32.ofInt (atoi optarg) }
  | .threshMs => .ok { o with threshMs := UInt32.ofInt (atoi optarg) }
  | .interval => .ok { o with interval := positive optarg }
  | .duration => .ok { o with duration := positive optarg }
  | .dryRun => .ok { o with dryRun := true }
  | .persist => .ok { o with persist := true }
  | .help => .error .usage

/-- The option loop over `argv` behind the program's name. What is not an option is
skipped, and `--` ends the options. -/
def optionLoop (positive : Text → Bool) : List Text → Options → Except Quit Options
  | [], o => .ok o
  | ['-', '-'] :: _, o => .ok o
  | ('-' :: '-' :: long) :: args, o =>
    let name := long.takeWhile (· != '=')
    let value := (long.dropWhile (· != '=')).tail?
    match findOpt name, value, args with
    | none, _, _ => .error .usage
    | some (false, opt), none, args =>
      match setOption positive o [] opt with
      | .error e => .error e
      | .ok o => optionLoop positive args o
    | some (false, _), some _, _ => .error .usage
    | some (true, opt), some optarg, args =>
      match setOption positive o optarg opt with
      | .error e => .error e
      | .ok o => optionLoop positive args o
    | some (true, opt), none, optarg :: args =>
      match setOption positive o optarg opt with
      | .error e => .error e
      | .ok o => optionLoop positive args o
    | some (true, _), none, [] => .error .usage
  -- `-h`, or a letter that `main` does not know
  | ('-' :: _ :: _) :: _, _ => .error .usage
  | _ :: args, o => optionLoop positive args o

/-! ## One option -/

section OneOption

variable {positive : Text → Bool} {name : Text} {opt : Opt} {o o' : Options}

theorem span_name (heq : '=' ∉ name) :
    name.takeWhile (· != '=') = name ∧ name.dropWhile (· != '=') = [] := by
  have hall : ∀ c ∈ name, (c != '=') = true := by
    intro c hc
    rw [bne_iff_ne]
    rintro rfl
    exact heq hc
  exact ⟨List.takeWhile_eq_self_iff.mpr hall, List.dropWhile_eq_nil_iff.mpr hall⟩

theorem optionLoop_flag (hne : name ≠ []) (heq : '=' ∉ name)
    (hopt : findOpt name = some (false, opt)) (hset : setOption positive o [] opt = .ok o')
    (args : List Text) :
    optionLoop positive (('-' :: '-' :: name) :: args) o = optionLoop positive args o' := by
  obtain ⟨hname, hvalue⟩ := span_name heq
  obtain ⟨c, cs, rfl⟩ := List.exists_cons_of_ne_nil hne
  rw [optionLoop.eq_def]
  simp only [hname, hvalue, hopt, List.tail?_nil, hset]

theorem optionLoop_arg (hne : name ≠ []) (heq : '=' ∉ name)
    (hopt : findOpt name = some (true, opt)) {optarg : Text}
    (hset : setOption positive o optarg opt = .ok o') (args : List Text) :
    optionLoop positive (('-' :: '-' :: name) :: optarg :: args) o =
      optionLoop positive args o' := by
  obtain ⟨hname, hvalue⟩ := span_name heq
  obtain ⟨c, cs, rfl⟩ := List.exists_cons_of_ne_nil hne
  rw [optionLoop.eq_def]
  simp only [hname, hvalue, hopt, List.tail?_nil, hset]

end OneOption

end FakeBigLittle
