import Codemod.Files.Tree
import Codemod.Proofs.Dict
import Codemod.Proofs.Outcome
import Mathlib.Data.List.Induction
import Mathlib.Tactic.MkIffOfInductiveProp
/-!
# Directories as dictionaries

A directory of a file tree holds files, and which ones is a dictionary
(`FileTree.Holds`). A path that joins the directory and a name leads to the
file of that name, so writing there puts an entry into the dictionary, reading
looks it up, and listing the directory gives its keys. Nothing else of the tree
has to be known.
-/

namespace Codemod

namespace FileAccess

/-- A name is joined to its directory by one stroke, which may be there
already. -/
theorem exists_join_eq {directory name : String} (hdirectory : directory ≠ "")
    (hname : '/' ∉ name.toList) : ∃ base, join directory name = base ++ "/" ++ name ∧
      (directory = base ∨ directory = base ++ "/") := by
  have hrelative : isAbsolute name = false := by
    rw [isAbsolute, beq_eq_false_iff_ne]
    exact fun h => hname (List.mem_of_head? h)
  rw [join, hrelative, Bool.or_false, if_neg (by simpa using hdirectory)]
  split
  · rename_i hlast
    obtain ⟨front, hfront⟩ := List.getLast?_eq_some_iff.1 hlast
    have hdirectory : directory = String.ofList front ++ "/" :=
      String.toList_inj.1 (by simpa using hfront)
    exact ⟨String.ofList front, by rw [← hdirectory], .inr hdirectory⟩
  · exact ⟨directory, rfl, .inl rfl⟩

end FileAccess

namespace FileTree

variable {tree tree' : FileTree}

/-! ## Paths -/

/-- The name may be that of a file: it stands for itself in a path, and no
system refuses it. -/
@[mk_iff]
structure IsFileName (name : String) : Prop where
  ne_empty : name ≠ ""
  ne_here : name ≠ "."
  ne_above : name ≠ ".."
  no_stroke : '/' ∉ name.toList
  no_nul : '\x00' ∉ name.toList
  counted : name.utf8ByteSize ≤ maxName

instance : DecidablePred IsFileName := fun name => decidable_of_iff' _ (isFileName_iff name)

theorem split_join (base name : String) :
    split (base ++ "/" ++ name) = split base ++ split name := by
  simp [split, List.splitOn_append_cons_self]

theorem split_name {name : String} (h : '/' ∉ name.toList) : split name = [name] := by
  simp [split, List.splitOn_eq_singleton h]

theorem split_ne_nil (path : String) : split path ≠ [] := by
  simp [split, List.splitOn_ne_nil]

theorem pathText_append {place : List String} (h : place ≠ []) (name : String) :
    pathText (place ++ [name]) = pathText place ++ "/" ++ name := by
  rw [pathText, String.intercalate_append_of_ne_nil h (List.cons_ne_nil _ _),
    String.intercalate_singleton]
  rfl

/-- A path of limited length that names something begins with the first of
its parts. -/
theorem startOf_eq_ok_iff {path : String} {begins : List String × List String} :
    startOf path = .ok begins ↔
      '\x00' ∉ path.toList ∧ path.utf8ByteSize ≤ maxPath ∧ path ≠ "" ∧
        ∃ first rest, split path = first :: rest ∧
          begins = if first = "" then (root, rest) else ([], first :: rest) := by
  unfold startOf
  simp only [List.contains_iff_mem]
  split_ifs with hnul hlength hempty
  · simp [hnul]
  · simp [Nat.not_le.2 hlength]
  · simp [hempty]
  obtain ⟨first, rest, hsplit⟩ := List.exists_cons_of_ne_nil (split_ne_nil path)
  have hrest : '\x00' ∉ path.toList ∧ path.utf8ByteSize ≤ maxPath ∧ path ≠ "" :=
    ⟨hnul, Nat.not_lt.1 hlength, hempty⟩
  rw [hsplit]
  split
  · rename_i parts heq
    obtain ⟨rfl, rfl⟩ := List.cons.inj heq
    simp [hrest, eq_comm]
  · rename_i hfirst
    have hfirst : first ≠ "" := fun h => hfirst rest (by rw [h])
    simp [hrest, hfirst, eq_comm]

/-- The path of a file in a directory is that of the directory, and then the
name. -/
theorem startOf_join {directory name : String} {start parts : List String}
    (hstart : startOf directory = .ok (start, parts)) (hname : IsFileName name)
    (hcounted : (FileAccess.join directory name).utf8ByteSize ≤ maxPath) :
    ∃ front, (parts = front ∨ parts = front ++ [""]) ∧
      startOf (FileAccess.join directory name) = .ok (start, front ++ [name]) := by
  obtain ⟨hnul, -, hne, first, rest, hsplit, hbegins⟩ := startOf_eq_ok_iff.1 hstart
  obtain ⟨base, hjoin, hbase⟩ := FileAccess.exists_join_eq hne hname.no_stroke
  obtain ⟨first', rest', hsplit'⟩ := List.exists_cons_of_ne_nil (split_ne_nil base)
  have hjoined : startOf (FileAccess.join directory name) =
      .ok (if first' = "" then (root, rest' ++ [name]) else ([], first' :: rest' ++ [name])) := by
    refine startOf_eq_ok_iff.2 ⟨?_, hcounted, ?_, first', rest' ++ [name], ?_, rfl⟩
    · rw [hjoin]
      have : '\x00' ∉ base.toList := by
        rcases hbase with rfl | rfl
        · exact hnul
        · exact fun h => hnul (by simp [h])
      simpa [this] using hname.no_nul
    · rw [hjoin]
      simp
    · rw [hjoin, split_join, split_name hname.no_stroke, hsplit', List.cons_append]
  have hparts : first = first' ∧ (rest = rest' ∨ rest = rest' ++ [""]) := by
    rcases hbase with rfl | rfl
    · exact (List.cons.inj (hsplit.symm.trans hsplit')).imp_right .inl
    · have hopen : split (base ++ "/") = first' :: (rest' ++ [""]) := by
        rw [← String.append_empty (s := base ++ "/"), split_join, hsplit']
        rfl
      exact (List.cons.inj (hsplit.symm.trans hopen)).imp_right .inr
  obtain ⟨rfl, hrest⟩ := hparts
  rw [hjoined]
  split_ifs at hbegins ⊢ <;> obtain ⟨rfl, rfl⟩ := Prod.mk.inj hbegins
  · exact ⟨rest', hrest, rfl⟩
  · exact ⟨first :: rest', hrest.imp (congrArg _) (congrArg _), rfl⟩

/-! ## Places -/

/-- What was a directory in one tree is one in the other. -/
def Keeps (tree tree' : FileTree) : Prop :=
  ∀ place, tree.entryAt place = .directory → tree'.entryAt place = .directory

theorem entryAt_of_enter {here place : List String} {part : String}
    (h : tree.enter here part = .ok place) : tree.entryAt here = .directory := by
  unfold enter at h
  split at h
  · exact absurd h nofun
  · exact absurd h nofun
  · assumption

theorem enter_congr {here : List String} (part : String)
    (h : tree.entryAt here = .directory) (h' : tree'.entryAt here = .directory) :
    tree'.enter here part = tree.enter here part := by
  rw [enter, enter, h, h']

theorem enter_empty {here place : List String} (h : tree.enter here "" = .ok place) :
    place = here := by
  rw [enter, entryAt_of_enter h] at h
  exact (Except.ok.inj h).symm

theorem enter_name {here : List String} {name : String} (hname : IsFileName name)
    (h : tree.entryAt here = .directory) : tree.enter here name = .ok (here ++ [name]) := by
  rw [enter, h]
  dsimp only
  rw [if_neg (by simp [hname.ne_empty, hname.ne_here]), if_neg hname.ne_above,
    if_neg (Nat.not_lt.2 hname.counted)]

theorem resolve_eq_ok_iff {path : String} {place : List String} :
    tree.resolve path = .ok place ↔ ∃ start parts, startOf path = .ok (start, parts) ∧
      parts.foldlM tree.enter start = .ok place := by
  rw [resolve, Outcome.bind_eq_ok_iff]
  exact Prod.exists

/-- The last part of a path leads on from where those before it lead. -/
theorem foldlM_enter_concat {front : List String} {last : String} {start place : List String} :
    (front ++ [last]).foldlM tree.enter start = .ok place ↔
      ∃ parent, front.foldlM tree.enter start = .ok parent ∧
        tree.enter parent last = .ok place := by
  rw [List.foldlM_append, Outcome.bind_eq_ok_iff]
  simp only [List.foldlM_cons, List.foldlM_nil, bind_pure]

/-- A path leads where it led. -/
theorem foldlM_enter_of_keeps (hkeeps : Keeps tree tree') {parts : List String}
    {start place : List String} (h : parts.foldlM tree.enter start = .ok place) :
    parts.foldlM tree'.enter start = .ok place := by
  induction parts generalizing start with
  | nil => exact h
  | cons part rest ih =>
    rw [List.foldlM_cons, Outcome.bind_eq_ok_iff] at h ⊢
    obtain ⟨next, hpart, hrest⟩ := h
    have hstart := entryAt_of_enter hpart
    exact ⟨next, by rw [enter_congr part hstart (hkeeps _ hstart), hpart], ih hrest⟩

theorem resolve_of_keeps (hkeeps : Keeps tree tree') {path : String} {place : List String}
    (h : tree.resolve path = .ok place) : tree'.resolve path = .ok place := by
  obtain ⟨start, parts, hstart, hparts⟩ := resolve_eq_ok_iff.1 h
  exact resolve_eq_ok_iff.2 ⟨start, parts, hstart, foldlM_enter_of_keeps hkeeps hparts⟩

/-- The path of a file in a directory leads into that. -/
theorem resolve_join {directory name : String} {place : List String}
    (hresolve : tree.resolve directory = .ok place) (hentry : tree.entryAt place = .directory)
    (hname : IsFileName name)
    (hcounted : (FileAccess.join directory name).utf8ByteSize ≤ maxPath) :
    tree.resolve (FileAccess.join directory name) = .ok (place ++ [name]) := by
  obtain ⟨start, parts, hstart, hparts⟩ := resolve_eq_ok_iff.1 hresolve
  obtain ⟨front, hfront, hjoin⟩ := startOf_join hstart hname hcounted
  have hfold : front.foldlM tree.enter start = .ok place := by
    rcases hfront with rfl | rfl
    · exact hparts
    · obtain ⟨parent, hover, hlast⟩ := foldlM_enter_concat.1 hparts
      rw [enter_empty hlast, hover]
  exact resolve_eq_ok_iff.2 ⟨start, front ++ [name], hjoin,
    foldlM_enter_concat.2 ⟨place, hfold, enter_name hname hentry⟩⟩

/-- Strokes at the end of a path lead nowhere. -/
theorem foldlM_enter_strip {parts : List String} {start place : List String}
    (h : parts.foldlM tree.enter start = .ok place) :
    (parts.reverse.dropWhile (· = "")).reverse.foldlM tree.enter start = .ok place := by
  induction parts using List.reverseRecOn generalizing place with
  | nil => exact h
  | append_singleton front last ih =>
    rw [List.reverse_concat, List.dropWhile_cons]
    split_ifs with hlast
    · obtain ⟨parent, hover, henter⟩ := foldlM_enter_concat.1 h
      rw [of_decide_eq_true hlast] at henter
      rw [enter_empty henter]
      exact ih hover
    · rw [List.reverse_cons, List.reverse_reverse]
      exact h

/-- The last part of a path leads from what stands above it. -/
theorem exists_enter_last {parts : List String} {start place : List String}
    (h : parts.foldlM tree.enter start = .ok place) (hentry : tree.entryAt place = .directory) :
    ∃ parent, parts.dropLast.foldlM tree.enter start = .ok parent ∧
      tree.enter parent (parts.getLastD "") = .ok place := by
  rcases List.eq_nil_or_concat parts with rfl | ⟨front, last, rfl⟩
  · obtain rfl := Except.ok.inj h
    exact ⟨start, rfl, by simp [enter, hentry]⟩
  · rw [List.concat_eq_append] at h ⊢
    obtain ⟨parent, hover, henter⟩ := foldlM_enter_concat.1 h
    exact ⟨parent, by rwa [List.dropLast_concat], by rwa [List.getLastD_concat]⟩

theorem makeDirectory_of_entryAt {path : String} {place : List String}
    (hresolve : tree.resolve path = .ok place) (hentry : tree.entryAt place = .directory) :
    tree.makeDirectory path = .error .alreadyExists := by
  obtain ⟨start, parts, hstart, hparts⟩ := resolve_eq_ok_iff.1 hresolve
  obtain ⟨parent, hover, hplace⟩ := exists_enter_last (foldlM_enter_strip hparts) hentry
  simp only [makeDirectory, hstart, bind, Except.bind, hover, hplace, hentry, ite_self]

/-! ## Writing -/

theorem entryAt_file_name {place : List String} {name : String} (hname : IsFileName name) :
    tree.entryAt (place ++ [name]) =
      match tree.get? (pathText (place ++ [name])) with
      | none => .missing
      | some (.file content) => .file content
      | some .directory => .directory := by
  have hbelow : ¬ (isAround (place ++ [name]) || place ++ [name] == root) = true := by
    rw [Bool.or_eq_true, not_or]
    refine ⟨by simp [isAround, hname.ne_above], fun hroot => ?_⟩
    have hlast := congrArg List.getLast? (eq_of_beq hroot)
    rw [List.getLast?_append, root] at hlast
    exact hname.ne_empty (by simpa using hlast)
  exact if_neg hbelow

/-- A file that takes no directory's place leaves the directories. -/
theorem keeps_insert {key : String} (h : tree.get? key ≠ some .directory) (content : Bytes) :
    Keeps tree (tree.insert key (.file content)) := by
  intro place hplace
  unfold entryAt at hplace ⊢
  rw [Dict.get?_insert]
  split_ifs at hplace ⊢ with haround hkey
  · rfl
  · subst hkey
    split at hplace
    · exact absurd hplace nofun
    · exact absurd hplace nofun
    · rename_i hentry
      exact absurd hentry h
  · exact hplace

/-! ## What a directory holds -/

theorem pathText_append_inj {place : List String} {name other : String} :
    pathText (place ++ [name]) = pathText (place ++ [other]) ↔ name = other := by
  by_cases hplace : place = []
  · subst hplace
    simp [pathText]
  · rw [pathText_append hplace, pathText_append hplace, String.append_right_inj]

/-- What the paths of the files in a place begin with. -/
def above (place : List String) : List Char :=
  if place.isEmpty then [] else (pathText place).toList ++ ['/']

theorem toList_pathText_append (place : List String) (name : String) :
    (pathText (place ++ [name])).toList = above place ++ name.toList := by
  by_cases hplace : place = []
  · subst hplace
    simp [pathText, above]
  · rw [pathText_append hplace]
    simp [above, hplace]

/-- What follows in a path is a name. -/
theorem rest_eq_some_iff {front path : List Char} {name : String} :
    (if front.isPrefixOf path && !(path.drop front.length).contains '/' then
      some (String.ofList (path.drop front.length)) else none) = some name ↔
      path = front ++ name.toList ∧ '/' ∉ name.toList := by
  constructor
  · intro h
    split_ifs at h with hif
    obtain ⟨hfront, hrest⟩ := Bool.and_eq_true_iff.1 hif
    obtain ⟨rest, rfl⟩ := List.isPrefixOf_iff_prefix.1 hfront
    rw [List.drop_left] at h hrest
    obtain rfl := Option.some.inj h
    simpa using hrest
  · rintro ⟨rfl, hname⟩
    rw [List.drop_left, if_pos, String.ofList_toList]
    simpa using hname

theorem mem_namesIn_iff {place : List String} {name : String} :
    name ∈ tree.namesIn place ↔ '/' ∉ name.toList ∧
      ∃ content, tree.get? (pathText (place ++ [name])) = some (.file content) := by
  simp only [namesIn, List.mem_filterMap, Prod.exists]
  constructor
  · rintro ⟨path, entry, hentry, hname⟩
    cases entry with
    | directory => exact absurd hname nofun
    | file content =>
      obtain ⟨hpath, hstroke⟩ := rest_eq_some_iff.1 hname
      obtain rfl : path = pathText (place ++ [name]) :=
        String.toList_inj.1 (hpath.trans (toList_pathText_append place name).symm)
      exact ⟨hstroke, content, Dict.mem_entries_iff.1 hentry⟩
  · rintro ⟨hstroke, content, hentry⟩
    exact ⟨_, _, Dict.mem_entries_iff.2 hentry,
      rest_eq_some_iff.2 ⟨toList_pathText_append place name, hstroke⟩⟩

theorem nodup_namesIn (place : List String) : (tree.namesIn place).Nodup := by
  refine List.Pairwise.filterMap _ (fun {e e'} hlt name hname name' hname' heq => ?_) tree.sorted
  obtain ⟨path, entry⟩ := e
  obtain ⟨path', entry'⟩ := e'
  subst heq
  cases entry with
  | directory => exact absurd hname nofun
  | file content =>
    cases entry' with
    | directory => exact absurd hname' nofun
    | file content' =>
      have hpath := (rest_eq_some_iff.1 hname).1.trans (rest_eq_some_iff.1 hname').1.symm
      exact String.ne_of_lt hlt (String.toList_inj.1 hpath)

/-! ## Acting on a tree -/

theorem bind_of_eq {α β : Type} {action : StateM FileTree α} {next : α → StateM FileTree β} {a : α}
    (h : action tree = (a, tree')) : (action >>= next) tree = next a tree' := by
  show next (action tree).1 (action tree).2 = _
  rw [h]

theorem ask_of_eq {α : Type} {question : FileTree → Except FileError α}
    {answer : Except FileError α}
    (h : question tree = answer) : ask question tree = (answer, tree) := congrArg (·, tree) h

theorem get_eq (tree : FileTree) : (get : StateM FileTree FileTree) tree = (tree, tree) := rfl

theorem change_of_eq_ok {step : FileTree → Except FileError FileTree}
    (h : step tree = .ok tree') : change step tree = (.ok (), tree') := by
  rw [change, bind_of_eq (get_eq tree), h]
  rfl

theorem change_of_eq_error {step : FileTree → Except FileError FileTree} {e : FileError}
    (h : step tree = .error e) : change step tree = (.error e, tree) := by
  rw [change, bind_of_eq (get_eq tree), h]
  rfl

/-- What stands at the path is a directory, and these files stand directly in
it, and nothing else. -/
structure Holds (tree : FileTree) (directory : String) (files : Dict Bytes) : Prop where
  names : ∀ name ∈ files.keys, '/' ∉ name.toList
  entries : ∃ place, tree.resolve directory = .ok place ∧ tree.entryAt place = .directory ∧
    ∀ name, '/' ∉ name.toList →
      tree.get? (pathText (place ++ [name])) = (files.get? name).map .file

namespace Holds

variable {directory name : String} {files : Dict Bytes}

/-- **Writing a file puts an entry into its directory.** -/
theorem writeFile (h : Holds tree directory files) (hname : IsFileName name)
    (hcounted : (FileAccess.join directory name).utf8ByteSize ≤ maxPath) (content : Bytes) :
    ∃ tree', access.writeFile (FileAccess.join directory name) content tree = (.ok (), tree') ∧
      Holds tree' directory (files.insert name content) := by
  obtain ⟨hnames, place, hresolve, hentry, hfiles⟩ := h
  have hkeeps : Keeps tree (tree.insert (pathText (place ++ [name])) (.file content)) :=
    keeps_insert (by rw [hfiles name hname.no_stroke]; cases files.get? name <;> nofun) content
  refine ⟨tree.insert (pathText (place ++ [name])) (.file content), ?_, fun other hother => ?_,
    place, resolve_of_keeps hkeeps hresolve, hkeeps place hentry, fun other hother => ?_⟩
  · refine change_of_eq_ok ?_
    rw [FileTree.writeFile, Outcome.bind_eq_ok_iff]
    refine ⟨_, resolve_join hresolve hentry hname hcounted, ?_⟩
    rw [entryAt_file_name hname, hfiles name hname.no_stroke]
    cases files.get? name <;> rfl
  · rw [Dict.mem_keys_iff, Dict.get?_insert] at hother
    split_ifs at hother with heq
    · exact heq ▸ hname.no_stroke
    · exact hnames other (Dict.mem_keys_iff.2 hother)
  · rw [Dict.get?_insert, Dict.get?_insert, hfiles other hother]
    simp only [pathText_append_inj]
    split <;> rfl

/-- **Reading a file looks its name up.** -/
theorem readFile (h : Holds tree directory files) (hname : IsFileName name)
    (hcounted : (FileAccess.join directory name).utf8ByteSize ≤ maxPath) {content : Bytes}
    (hfile : files.get? name = some content) :
    access.readFile (FileAccess.join directory name) tree = (.ok content, tree) := by
  obtain ⟨-, place, hresolve, hentry, hfiles⟩ := h
  refine ask_of_eq ?_
  rw [FileTree.readFile, Outcome.bind_eq_ok_iff]
  refine ⟨_, resolve_join hresolve hentry hname hcounted, ?_⟩
  rw [entryAt_file_name hname, hfiles name hname.no_stroke, hfile]
  rfl

/-- **Listing a directory gives the names of its files.** -/
theorem filesIn (h : Holds tree directory files) :
    ∃ names, access.filesIn directory tree = (.ok names, tree) ∧ names.Perm files.keys := by
  obtain ⟨hnames, place, hresolve, hentry, hfiles⟩ := h
  refine ⟨tree.namesIn place, ask_of_eq ?_, ?_⟩
  · rw [FileTree.filesIn, Outcome.bind_eq_ok_iff]
    exact ⟨place, hresolve, by rw [hentry]⟩
  · refine (List.perm_ext_iff_of_nodup (nodup_namesIn place) Dict.nodup_keys).2 fun name => ?_
    rw [mem_namesIn_iff, Dict.mem_keys_iff]
    constructor
    · rintro ⟨hname, content, hcontent⟩
      rw [hfiles name hname] at hcontent
      obtain ⟨_, hfile, -⟩ := Option.map_eq_some_iff.1 hcontent
      rw [hfile]
      rfl
    · intro hname
      obtain ⟨content, hcontent⟩ := Option.isSome_iff_exists.1 hname
      have hstroke := hnames name (Dict.mem_keys_iff.2 hname)
      exact ⟨hstroke, content, by rw [hfiles name hstroke, hcontent]; rfl⟩

/-- A directory that is there need not be made. -/
theorem createDirectory (h : Holds tree directory files) :
    access.createDirectory directory tree = (.ok (), tree) := by
  obtain ⟨-, place, hresolve, hentry, -⟩ := h
  have hthere : tree.isDirectory directory = true := by
    rw [isDirectory, hresolve]
    simp [Except.map, hentry]
  show FileTree.createDirectory directory tree = _
  unfold FileTree.createDirectory
  split
  · rfl
  · unfold makeBelow
    rw [bind_of_eq (change_of_eq_error (makeDirectory_of_entryAt hresolve hentry))]
    show (if tree.isDirectory directory then Except.ok () else .error FileError.alreadyExists,
      tree) = _
    rw [hthere, if_pos rfl]

end Holds

end FileTree

end Codemod
