import StackQueue.CommandLine.WorkingDirectory
import StackQueue.Proofs.CommandLine.Arguments

/-!
# Programs in a directory

The names on the way to a file, joined by slashes, are a path to it. A command line runs the file
if it gives this path behind `./` or behind the argument `--`; this covers names that start with a
hyphen. No path leads out of the directory: whatever is read is the content of the file at which
its steps arrive.

## Implementation notes

`enter` asks at every step whether there is a directory. `stride` only follows the names, and says
where a path arrives if it arrives anywhere.
-/

namespace StackQueue.WorkingDirectory

/-- The names that a directory can hold. -/
structure IsName (name : Octets) : Prop where
  ne_nil : name ≠ []
  ne_dot : name ≠ [dot]
  ne_dots : name ≠ [dot, dot]
  unbroken : slash ∉ name
  length_le : name.length ≤ nameLimit

/-- The path that consists of the given steps. -/
def path (steps : List Octets) : Octets :=
  [slash].intercalate steps

/-- Where a step leads as far as its name tells. -/
def stride (place : Place) (name : Octets) : Option Place :=
  if name.isEmpty || name = [dot] then some place
  else if name = [dot, dot] then if place.isEmpty then none else some place.dropLast
  else some (place ++ [name])

variable {here : WorkingDirectory} {place next : Place} {name content : Octets}
  {names : List Octets}

theorem follow_cons_cons (here : WorkingDirectory) (place : Place) (name other : Octets)
    (others : List Octets) :
    here.follow place (name :: other :: others) =
      (here.enter place name).bind fun place => here.follow place (other :: others) := rfl

/-! ### The path to a file -/

theorem enter_of_isName (hname : IsName name)
    (hdirectory : here.isDirectory (place ++ [name]) = true) :
    here.enter place name = some (place ++ [name]) := by
  simp [enter, hname.ne_nil, hname.ne_dot, hname.ne_dots, hdirectory]

/-- What stands in front of a file is a directory. -/
theorem isDirectory_of_content? {below : Place} (hbelow : below ≠ [])
    (h : here.content? (place ++ below) = some content) : here.isDirectory place = true := by
  obtain ⟨file, hfile, -⟩ := Option.map_eq_some_iff.mp h
  have hplace : file.1 = place ++ below := by simpa using List.find?_some hfile
  have habove : here.files.any fun file =>
      place.isPrefixOf file.1 && place.length < file.1.length := by
    refine List.any_eq_true.mpr ⟨file, List.mem_of_find?_eq_some hfile, ?_⟩
    have hlength := List.length_pos_iff.mpr hbelow
    simp [hplace, hlength]
  rw [isDirectory, habove, Bool.or_true]

/-- The names on the way to a file lead to it. -/
theorem follow_of_content? (hnames : ∀ name ∈ names, IsName name) (hne : names ≠ [])
    (h : here.content? (place ++ names) = some content) :
    here.follow place names = some content := by
  induction names generalizing place with
  | nil => exact absurd rfl hne
  | cons name others ih =>
      obtain ⟨hname, hothers⟩ := List.forall_mem_cons.mp hnames
      cases others with
      | nil => rw [follow, if_pos hname.length_le, h]
      | cons other others =>
          rw [List.append_cons] at h
          have hdirectory := isDirectory_of_content? (List.cons_ne_nil other others) h
          rw [follow_cons_cons, enter_of_isName hname hdirectory, Option.bind_some]
          exact ih hothers (List.cons_ne_nil other others) h

theorem splitOn_path (hunbroken : ∀ name ∈ names, slash ∉ name) (hne : names ≠ []) :
    (path names).splitOn slash = names :=
  List.splitOn_intercalate slash hunbroken hne

/-- The plain path to a place names this place. -/
theorem place_path (hnames : ∀ name ∈ names, IsName name) (hne : names ≠ []) :
    WorkingDirectory.place (path names) = names := by
  rw [WorkingDirectory.place, splitOn_path (fun name hmem => (hnames name hmem).unbroken) hne,
    List.filter_eq_self]
  intro name hmem
  simp [(hnames name hmem).ne_nil]

/-- A path that starts with a name is relative. -/
theorem head?_path_ne_slash (hname : name ≠ []) (hunbroken : slash ∉ name)
    (others : List Octets) : (path (name :: others)).head? ≠ some slash := by
  obtain ⟨first, rest, rfl⟩ := List.exists_cons_of_ne_nil hname
  have hhead : (path ((first :: rest) :: others)).head? = some first := by
    cases others <;> simp [path, List.intercalate_cons_cons]
  rw [hhead]
  intro hslash
  obtain rfl : first = slash := Option.some.inj hslash
  exact hunbroken List.mem_cons_self

/-- A path is read by following its steps. -/
theorem read_path (here : WorkingDirectory) {others : List Octets} (hname : name ≠ [])
    (hunbroken : ∀ step ∈ name :: others, slash ∉ step)
    (hlength : (path (name :: others)).length < pathLimit) :
    here.read (path (name :: others)) = here.follow [] (name :: others) := by
  have hrelative := head?_path_ne_slash hname (hunbroken name List.mem_cons_self) others
  rw [read, if_pos (by simp [hlength, hrelative]),
    splitOn_path hunbroken (List.cons_ne_nil name others)]

theorem length_path_dot (hne : names ≠ []) :
    (path ([dot] :: names)).length = (path names).length + 2 := by
  obtain ⟨name, others, rfl⟩ := List.exists_cons_of_ne_nil hne
  rw [path, List.intercalate_cons_cons, ← path, List.append_assoc]
  simp only [List.singleton_append, List.length_cons]

/-- The path to a file reads it, with or without `./` in front of the path. -/
theorem read_of_content? (hnames : ∀ name ∈ names, IsName name) (hne : names ≠ [])
    (hlength : (path names).length + 2 < pathLimit) (h : here.content? names = some content) :
    here.read (path names) = some content ∧
      here.read (path ([dot] :: names)) = some content := by
  have hfollow : here.follow [] names = some content := follow_of_content? hnames hne h
  have hdotted : here.follow [] ([dot] :: names) = here.follow [] names := by
    obtain ⟨name, others, rfl⟩ := List.exists_cons_of_ne_nil hne
    have hstay : here.enter [] [dot] = some [] := by simp [enter]
    rw [follow_cons_cons, hstay, Option.bind_some]
  have hunbroken : ∀ name ∈ names, slash ∉ name := fun name hmem => (hnames name hmem).unbroken
  have hlonger := length_path_dot hne
  constructor
  · obtain ⟨name, others, rfl⟩ := List.exists_cons_of_ne_nil hne
    have hname := (hnames name List.mem_cons_self).ne_nil
    rw [read_path here hname hunbroken (by omega), hfollow]
  · rw [read_path here (List.cons_ne_nil dot []) (List.forall_mem_cons.mpr ⟨by decide, hunbroken⟩)
      (by omega), hdotted, hfollow]

/-! ### Where a path arrives -/

theorem stride_of_enter (h : here.enter place name = some next) :
    stride place name = some next := by
  unfold enter at h
  unfold stride
  split
  · next hstay => rwa [if_pos hstay] at h
  · next hmove =>
      rw [if_neg hmove] at h
      split
      · next hback => rwa [if_pos hback] at h
      · next hname =>
          rw [if_neg hname] at h
          split at h
          · exact h
          · cases h

/-- What is read is the content of the file at which the steps of the path arrive. -/
theorem exists_of_follow (h : here.follow place names = some content) :
    ∃ steps last arrival, names = steps ++ [last] ∧ steps.foldlM stride place = some arrival ∧
      here.content? (arrival ++ [last]) = some content := by
  induction names generalizing place with
  | nil => cases h
  | cons name others ih =>
      cases others with
      | nil =>
          rw [follow] at h
          split at h
          · exact ⟨[], name, place, rfl, rfl, h⟩
          · cases h
      | cons other others =>
          rw [follow_cons_cons] at h
          obtain ⟨next, henter, hfollow⟩ := Option.bind_eq_some_iff.mp h
          obtain ⟨steps, last, arrival, heq, hsteps, hcontent⟩ := ih hfollow
          refine ⟨name :: steps, last, arrival, by rw [heq]; rfl, ?_, hcontent⟩
          rw [List.foldlM_cons, stride_of_enter henter]
          exact hsteps

/-- No path leads to anything but a file of the directory: the one at which its steps arrive. -/
theorem read_inside {text : Octets} (h : here.read text = some content) :
    ∃ steps last arrival, text = path (steps ++ [last]) ∧
      steps.foldlM stride [] = some arrival ∧ (arrival ++ [last], content) ∈ here.files := by
  unfold read at h
  split at h
  · obtain ⟨steps, last, arrival, heq, hsteps, hcontent⟩ := exists_of_follow h
    refine ⟨steps, last, arrival, ?_, hsteps, ?_⟩
    · rw [← heq, path, List.intercalate_splitOn]
    · obtain ⟨file, hfile, rfl⟩ := Option.map_eq_some_iff.mp hcontent
      have hplace : file.1 = arrival ++ [last] := by simpa using List.find?_some hfile
      rw [← hplace]
      exact List.mem_of_find?_eq_some hfile
  · cases h

/-! ### Command lines that name a file -/

variable {arguments : List Octets} {text : Octets}

theorem ofArguments_of_names (h : Request.Names arguments text) :
    Request.ofArguments arguments = .run text :=
  (Request.reads_iff.mp (Request.reads_run_iff.mpr h)).symm

/-- A command line that names the path to a file of the directory, with or without `./` in front of
it, runs the program in the file. -/
theorem respond_of_file (hnames : ∀ name ∈ names, IsName name) (hne : names ≠ [])
    (hlength : (path names).length + 2 < pathLimit) (h : here.content? names = some content)
    (harguments : Request.Names arguments (path names) ∨
      Request.Names arguments (path ([dot] :: names))) :
    (Request.ofArguments arguments).respond here.read =
      .ofRun (Run.ofSource (Utf8.text content) .unbounded) := by
  obtain ⟨hread, hdotted⟩ := read_of_content? hnames hne hlength h
  rcases harguments with harguments | harguments
  · rw [ofArguments_of_names harguments, Request.respond, hread]
  · rw [ofArguments_of_names harguments, Request.respond, hdotted]

example :
    let here : WorkingDirectory := ⟨[([Utf8.octets "-x"], Utf8.octets "push 5\npint")], []⟩
    (Request.ofArguments [Utf8.octets "./-x"]).respond here.read =
      ⟨0, Utf8.octets "5\n", ""⟩ := by
  decide +kernel

/-- A command line that names any path runs a file of the directory, or complains that it cannot
open what it names. -/
theorem respond_inside (h : Request.Names arguments text) :
    (∃ file ∈ here.files, (Request.ofArguments arguments).respond here.read =
      .ofRun (Run.ofSource (Utf8.text file.2) .unbounded)) ∨
    (Request.ofArguments arguments).respond here.read =
      .ofFailure (.cannotOpen (Utf8.text text)) := by
  rw [ofArguments_of_names h, Request.respond]
  cases hread : here.read text with
  | none => exact Or.inr rfl
  | some content =>
      obtain ⟨steps, last, arrival, -, -, hfile⟩ := read_inside hread
      exact Or.inl ⟨_, hfile, rfl⟩

end StackQueue.WorkingDirectory
