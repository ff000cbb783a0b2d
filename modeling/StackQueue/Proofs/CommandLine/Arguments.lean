import StackQueue.CommandLine.Response

/-!
# Which command lines run a program

Arguments are read from left to right by rules that leave one answer only. Three forms of command
lines run a program, and the file that is read then is the one that the command line names. Every
other command line reads no file: it gets the help text, the version text or an explanation of the
usage.

## Implementation notes

The rules are a relation and mention no scan. `Request.ofArguments` is the function that keeps to
them, and the only one.
-/

namespace StackQueue

namespace Request

/-- The argument that ends the flags. -/
def doubleHyphen : Octets := [hyphen, hyphen]

/-- Whether an argument is a path: every argument is one behind the end of the flags, and before it
a lone hyphen and whatever does not start with a hyphen. -/
def IsPath (flags : Bool) (argument : Octets) : Prop :=
  flags = false ∨ argument = [hyphen] ∨ argument.head? ≠ some hyphen

/-- The arguments that ask for the help text: the word, and every cluster that starts with the
letter. -/
def AsksHelp (argument : Octets) : Prop :=
  argument = Utf8.octets "--help" ∨ Utf8.octets "-h" <+: argument

/-- The arguments that ask for the version: the word, and every cluster that starts with the
letter. -/
def AsksVersion (argument : Octets) : Prop :=
  argument = Utf8.octets "--version" ∨ Utf8.octets "-V" <+: argument

/-- How arguments are read from left to right, while flags are recognised or behind them, with the
path that has been met. Help and version answer at once, and so does the first mistake: an unknown
flag, an empty path, a second path, and no path in the end. -/
inductive Reads : Bool → Option Octets → List Octets → Request → Prop
  | missing {flags : Bool} : Reads flags none [] .usage
  | file {flags : Bool} {path : Octets} : Reads flags (some path) [] (.run path)
  | endOfFlags {path? : Option Octets} {arguments : List Octets} {request : Request}
      (tail : Reads false path? arguments request) :
      Reads true path? (doubleHyphen :: arguments) request
  | help {path? : Option Octets} {argument : Octets} {arguments : List Octets}
      (h : AsksHelp argument) : Reads true path? (argument :: arguments) .help
  | version {path? : Option Octets} {argument : Octets} {arguments : List Octets}
      (h : AsksVersion argument) : Reads true path? (argument :: arguments) .version
  | unknown {path? : Option Octets} {argument : Octets} {arguments : List Octets}
      (hflag : ¬ IsPath true argument) (hend : argument ≠ doubleHyphen)
      (hhelp : ¬ AsksHelp argument) (hversion : ¬ AsksVersion argument) :
      Reads true path? (argument :: arguments) .usage
  | path {flags : Bool} {argument : Octets} {arguments : List Octets} {request : Request}
      (hpath : IsPath flags argument) (hne : argument ≠ [])
      (tail : Reads flags (some argument) arguments request) :
      Reads flags none (argument :: arguments) request
  | empty {flags : Bool} {arguments : List Octets} : Reads flags none ([] :: arguments) .usage
  | second {flags : Bool} {path argument : Octets} {arguments : List Octets}
      (hpath : IsPath flags argument) :
      Reads flags (some path) (argument :: arguments) .usage

variable {flags : Bool} {path? : Option Octets} {path argument : Octets}
  {arguments : List Octets} {request : Request}

/-! ### The scan keeps to the rules -/

theorem octets_helpLetter : Utf8.octets "-h" = [hyphen, 0x68] := by decide +kernel

theorem octets_versionLetter : Utf8.octets "-V" = [hyphen, 0x56] := by decide +kernel

theorem octets_helpWord : Utf8.octets "--help" = hyphen :: hyphen :: Utf8.octets "help" := by
  decide +kernel

theorem octets_versionWord :
    Utf8.octets "--version" = hyphen :: hyphen :: Utf8.octets "version" := by
  decide +kernel

theorem classify_of_asksHelp (h : AsksHelp argument) : classify argument = .flag .help := by
  rcases h with rfl | h
  · decide +kernel
  · rw [octets_helpLetter] at h
    obtain ⟨others, rfl⟩ := h
    rfl

theorem classify_of_asksVersion (h : AsksVersion argument) :
    classify argument = .flag .version := by
  rcases h with rfl | h
  · decide +kernel
  · rw [octets_versionLetter] at h
    obtain ⟨others, rfl⟩ := h
    rfl

theorem classify_of_isPath (h : IsPath true argument) : classify argument = .path argument := by
  rcases h with h | rfl | h
  · cases h
  · rfl
  · match argument with
    | [] | [_] => rfl
    | first :: second :: others =>
        have hfirst : first ≠ hyphen := fun hfirst => h (congrArg some hfirst)
        rw [classify, if_neg hfirst]

/-- What is no path starts with a hyphen and goes on behind it. -/
theorem exists_of_not_isPath (h : ¬ IsPath true argument) :
    ∃ second others, argument = hyphen :: second :: others := by
  have hlone : argument ≠ [hyphen] := fun hlone => h (.inr (.inl hlone))
  have hhead : argument.head? = some hyphen := by
    simpa [IsPath, hlone] using h
  match argument with
  | [only] =>
      obtain rfl : only = hyphen := Option.some.inj hhead
      exact absurd rfl hlone
  | first :: second :: others =>
      obtain rfl : first = hyphen := Option.some.inj hhead
      exact ⟨second, others, rfl⟩

theorem classify_of_unknown (hflag : ¬ IsPath true argument) (hend : argument ≠ doubleHyphen)
    (hhelp : ¬ AsksHelp argument) (hversion : ¬ AsksVersion argument) :
    classify argument = .flag .usage := by
  obtain ⟨second, others, rfl⟩ := exists_of_not_isPath hflag
  by_cases hsecond : second = hyphen
  · subst hsecond
    have hothers : others.isEmpty = false := by
      rw [List.isEmpty_eq_false_iff]
      rintro rfl
      exact hend rfl
    have hword : ofWord others = .usage := by
      rw [ofWord, if_neg, if_neg]
      · rintro rfl
        exact hversion (Or.inl octets_versionWord.symm)
      · rintro rfl
        exact hhelp (Or.inl octets_helpWord.symm)
    simp [classify, hothers, hword]
  · have hletter : ofLetter second = .usage := by
      rw [ofLetter, if_neg, if_neg]
      · rintro rfl
        exact hversion (Or.inr ⟨others, by rw [octets_versionLetter]; rfl⟩)
      · rintro rfl
        exact hhelp (Or.inr ⟨others, by rw [octets_helpLetter]; rfl⟩)
    simp [classify, hsecond, hletter]

theorem ofArgumentsFrom_cons (path? : Option Octets) (argument : Octets)
    (arguments : List Octets) :
    ofArgumentsFrom path? (argument :: arguments) =
      match classify argument with
      | .endOfFlags => ofPaths path? arguments
      | .flag request => request
      | .path path =>
          match takePath path? path with
          | .error request => request
          | .ok path => ofArgumentsFrom (some path) arguments := rfl

theorem takePath_of_ne_nil (h : argument ≠ []) : takePath none argument = .ok argument := by
  cases argument with
  | nil => exact absurd rfl h
  | cons octet octets => rfl

/-- The rest of a scan, while flags are recognised or behind them. -/
def scan (flags : Bool) (path? : Option Octets) (arguments : List Octets) : Request :=
  if flags then ofArgumentsFrom path? arguments else ofPaths path? arguments

/-- Behind the end of the flags and before it, a path is taken in the same way. -/
theorem scan_cons_of_isPath (h : IsPath flags argument) (path? : Option Octets)
    (arguments : List Octets) :
    scan flags path? (argument :: arguments) =
      match takePath path? argument with
      | .error request => request
      | .ok path => scan flags (some path) arguments := by
  cases flags with
  | false => rfl
  | true =>
      simp only [scan, if_true]
      rw [ofArgumentsFrom_cons, classify_of_isPath h]

/-- The rules leave one answer only, which is that of the scan. -/
theorem Reads.eq_scan (h : Reads flags path? arguments request) :
    request = scan flags path? arguments := by
  induction h with
  | @missing flags | @file flags => cases flags <;> rfl
  | endOfFlags _ ih => exact ih
  | help h =>
      simp only [scan, if_true]
      rw [ofArgumentsFrom_cons, classify_of_asksHelp h]
  | version h =>
      simp only [scan, if_true]
      rw [ofArgumentsFrom_cons, classify_of_asksVersion h]
  | unknown hflag hend hhelp hversion =>
      simp only [scan, if_true]
      rw [ofArgumentsFrom_cons, classify_of_unknown hflag hend hhelp hversion]
  | path hpath hne _ ih => rw [scan_cons_of_isPath hpath, takePath_of_ne_nil hne, ih]
  | @empty flags arguments =>
      have hpath : IsPath flags [] := Or.inr (Or.inr nofun)
      rw [scan_cons_of_isPath hpath]
      rfl
  | second hpath =>
      rw [scan_cons_of_isPath hpath]
      rfl

/-- The rules cover all arguments. -/
theorem exists_reads (flags : Bool) (path? : Option Octets) (arguments : List Octets) :
    ∃ request, Reads flags path? arguments request := by
  induction arguments generalizing flags path? with
  | nil =>
      cases path? with
      | none => exact ⟨.usage, .missing⟩
      | some path => exact ⟨.run path, .file⟩
  | cons argument arguments ih =>
      by_cases hpath : IsPath flags argument
      · cases path? with
        | some path => exact ⟨.usage, .second hpath⟩
        | none =>
            by_cases hne : argument = []
            · subst hne
              exact ⟨.usage, .empty⟩
            · obtain ⟨request, hrequest⟩ := ih flags (some argument)
              exact ⟨request, .path hpath hne hrequest⟩
      · obtain rfl : flags = true := by
          cases flags with
          | true => rfl
          | false => exact absurd (Or.inl rfl) hpath
        by_cases hend : argument = doubleHyphen
        · subst hend
          obtain ⟨request, hrequest⟩ := ih false path?
          exact ⟨request, .endOfFlags hrequest⟩
        · by_cases hhelp : AsksHelp argument
          · exact ⟨.help, .help hhelp⟩
          · by_cases hversion : AsksVersion argument
            · exact ⟨.version, .version hversion⟩
            · exact ⟨.usage, .unknown hpath hend hhelp hversion⟩

theorem reads_iff : Reads true none arguments request ↔ request = ofArguments arguments := by
  constructor
  · exact Reads.eq_scan
  · rintro rfl
    obtain ⟨request, hrequest⟩ := exists_reads true none arguments
    rwa [hrequest.eq_scan] at hrequest

/-! ### The command lines that run a program -/

/-- The command lines that name a file: its path alone, its path and the end of the flags, or the
end of the flags and its path. In front of the end of the flags a path is a lone hyphen or does not
start with a hyphen. -/
def Names (arguments : List Octets) (path : Octets) : Prop :=
  path ≠ [] ∧
    ((arguments = [path] ∨ arguments = [path, doubleHyphen]) ∧
        (path = [hyphen] ∨ path.head? ≠ some hyphen) ∨
      arguments = [doubleHyphen, path])

/-- Behind a path only the end of the flags can stand, and only once. -/
theorem reads_run_of_some {other : Octets} :
    Reads flags (some path) arguments (.run other) ↔
      path = other ∧ (arguments = [] ∨ flags = true ∧ arguments = [doubleHyphen]) := by
  constructor
  · intro h
    cases h with
    | file => exact ⟨rfl, Or.inl rfl⟩
    | endOfFlags tail =>
        cases tail with
        | file => exact ⟨rfl, Or.inr ⟨rfl, rfl⟩⟩
  · rintro ⟨rfl, rfl | ⟨rfl, rfl⟩⟩
    · exact .file
    · exact .endOfFlags .file

/-- The rules run a program exactly for the command lines that name a file. -/
theorem reads_run_iff : Reads true none arguments (.run path) ↔ Names arguments path := by
  constructor
  · intro h
    cases h with
    | path hpath hne tail =>
        obtain ⟨rfl, harguments⟩ := reads_run_of_some.mp tail
        refine ⟨hne, Or.inl ⟨?_, hpath.resolve_left nofun⟩⟩
        exact harguments.imp (fun h => by rw [h]) fun h => by rw [h.2]
    | endOfFlags tail =>
        cases tail with
        | path hpath hne tail =>
            obtain ⟨rfl, harguments⟩ := reads_run_of_some.mp tail
            obtain rfl := harguments.resolve_right nofun
            exact ⟨hne, Or.inr rfl⟩
  · rintro ⟨hne, ⟨rfl | rfl, hpath⟩ | rfl⟩
    · exact .path (Or.inr hpath) hne .file
    · exact .path (Or.inr hpath) hne (.endOfFlags .file)
    · exact .endOfFlags (.path (Or.inl rfl) hne .file)

/-! ### What they answer -/

/-- The file at a path matters for an answer if a change of this file alone can change it. -/
def Consults (answer : (Octets → Option Octets) → Response) (path : Octets) : Prop :=
  ∃ read other : Octets → Option Octets,
    (∀ another, another ≠ path → read another = other another) ∧ answer read ≠ answer other

/-- A request to run a program depends on its file and on no other, and no other request depends
on any file. -/
theorem consults_respond_iff : Consults request.respond path ↔ request = .run path := by
  constructor
  · rintro ⟨read, other, hsame, hne⟩
    cases request with
    | help | version | usage => exact absurd rfl hne
    | run program =>
        by_cases hprogram : program = path
        · rw [hprogram]
        · simp only [respond, hsame program hprogram] at hne
          exact absurd rfl hne
  · rintro rfl
    refine ⟨fun _ => none, fun other => if other = path then some [] else none, ?_, ?_⟩
    · intro another hanother
      exact (if_neg hanother).symm
    · intro hsame
      have hempty : (Run.ofSource (Utf8.text []) Sink.unbounded).status = 0 := by decide +kernel
      have hstatus := congrArg Response.status hsame
      simp only [respond, if_true, Response.ofRun, hempty] at hstatus
      exact Nat.one_ne_zero hstatus

/-- Whatever reads arguments by the rules reads them as the scan does, and depends on a file exactly
if the command line names it. If this file cannot be read, it is complained of by its path, decoded;
if it can be read, the answer is that of a run of its content, decoded. A command line that names
no file gets the help text, the version text or the usage, whatever the files. -/
theorem answers_command_lines (parse : List Octets → Request)
    (hparse : ∀ arguments, Reads true none arguments (parse arguments))
    (arguments : List Octets) :
    parse arguments = ofArguments arguments ∧
    (∀ path, Consults (parse arguments).respond path ↔ Names arguments path) ∧
    (∀ path, Names arguments path →
      (∀ read, read path = none → (parse arguments).respond read =
        ⟨1, [], "Error: Can't open file " ++ Utf8.text path ++ "\n"⟩) ∧
      ∀ read content, read path = some content →
        let run := Run.ofSource (Utf8.text content) Sink.unbounded
        (parse arguments).respond read = ⟨run.status, run.output.toList, run.diagnostic⟩) ∧
    ((∀ path, ¬ Names arguments path) →
      (∀ read, (parse arguments).respond read = ⟨0, Utf8.octets Response.helpText, ""⟩) ∨
      (∀ read, (parse arguments).respond read = ⟨0, Utf8.octets Response.versionText, ""⟩) ∨
      ∀ read, (parse arguments).respond read = ⟨1, [], "USAGE: monty file\n"⟩) := by
  have hnames (path : Octets) : parse arguments = .run path ↔ Names arguments path := by
    rw [← reads_run_iff, reads_iff, ← reads_iff.mp (hparse arguments)]
    exact eq_comm
  refine ⟨reads_iff.mp (hparse arguments), ?_, ?_, ?_⟩
  · intro path
    rw [consults_respond_iff, hnames]
  · intro path h
    rw [(hnames path).mpr h]
    refine ⟨?_, ?_⟩
    · intro read hread
      simp only [respond, hread]
      rfl
    · intro read content hread
      simp only [respond, hread]
      rfl
  · intro hnone
    cases hrequest : parse arguments with
    | help => exact Or.inl fun _ => rfl
    | version => exact Or.inr (Or.inl fun _ => rfl)
    | usage => exact Or.inr (Or.inr fun _ => rfl)
    | run path => exact absurd ((hnames path).mp hrequest) (hnone path)

/-- Behind the end of the flags even a flag is the path of a file. -/
theorem answers_command_lines_flag_as_path :
    let arguments := [doubleHyphen, Utf8.octets "--help"]
    let content := Utf8.octets "push 5\npint\npop\npop"
    (∀ arguments, Reads true none arguments (ofArguments arguments)) ∧
    Names arguments (Utf8.octets "--help") ∧
    (ofArguments arguments).respond (fun _ => none) =
      ⟨1, [], "Error: Can't open file --help\n"⟩ ∧
    (ofArguments arguments).respond (fun _ => some content) =
      ⟨1, Utf8.octets "5\n", "L4: can't pop an empty stack\n"⟩ := by
  intro arguments content
  have hrules (arguments : List Octets) : Reads true none arguments (ofArguments arguments) :=
    reads_iff.mpr rfl
  have hnames : Names arguments (Utf8.octets "--help") := ⟨by decide +kernel, Or.inr rfl⟩
  obtain ⟨-, -, hfile, -⟩ := answers_command_lines ofArguments hrules arguments
  obtain ⟨hmissing, hcontent⟩ := hfile (Utf8.octets "--help") hnames
  refine ⟨hrules, hnames, ?_, ?_⟩
  · rw [hmissing (fun _ => none) rfl]
    decide +kernel
  · rw [hcontent (fun _ => some content) content rfl]
    decide +kernel

end Request

end StackQueue
