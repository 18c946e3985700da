import ChessArbiter.Batch
import ChessArbiter.Proofs.Scheduling
import ChessArbiter.Proofs.Sheets

/-!
# The account of a run

A run goes through its files in order and keeps an account (`Accounts`), whatever came before and
wherever the paths lead: each file that can be opened is replayed, and the failed games of each are
written out. Whether a file written to is emptied first goes by the path as it is spelled, so of one
file under two paths only what came since a path to it was first used is left (`Write.left`): the
rest is lost (`lost_under_another_path`). A file that has one path only is left with all of them.
-/

namespace ChessArbiter

/-! ### Files -/

namespace Folder

variable {name : String}

theorem lookup_replace (files : List (String × String)) (name text other : String) :
    (files.map fun e => if e.1 = name then (name, text) else e).lookup other =
      if other = name then (files.lookup other).map (fun _ => text) else files.lookup other := by
  induction files with
  | nil => simp
  | cons e files ih =>
    obtain ⟨key, value⟩ := e
    rw [List.map_cons, List.lookup_cons]
    by_cases hkey : key = name
    · subst hkey
      by_cases hother : other = key
      · subst hother
        simp
      · simp [hother, ih, List.lookup_cons, beq_false_of_ne hother]
    · by_cases hother : other = key
      · subst hother
        simp [hkey]
      · simp [hkey, ih, List.lookup_cons, beq_false_of_ne hother]

theorem lookup_put (f : Folder) (name text other : String) :
    (f.put name text).files.lookup other =
      if other = name then some text else f.files.lookup other := by
  obtain ⟨files⟩ := f
  unfold put
  dsimp only
  by_cases hany : files.any (·.1 == name) = true
  · rw [if_pos hany]
    dsimp only
    rw [lookup_replace]
    by_cases hother : other = name
    · obtain ⟨e, he, hname⟩ := List.any_eq_true.1 hany
      obtain ⟨value, hvalue⟩ : ∃ value, files.lookup name = some value := by
        apply Option.isSome_iff_exists.1
        exact List.lookup_isSome_iff.2 ⟨e, he, BEq.symm hname⟩
      rw [if_pos hother, if_pos hother, hother, hvalue]
      rfl
    · rw [if_neg hother, if_neg hother]
  · rw [if_neg hany, List.lookup_append]
    by_cases hother : other = name
    · have hnone : files.lookup name = none := by
        rw [List.lookup_eq_none_iff]
        intro e he
        rw [bne_iff_ne]
        rintro rfl
        exact hany (List.any_eq_true.2 ⟨e, he, beq_self_eq_true e.1⟩)
      rw [if_pos hother, hother, hnone, Option.none_or, List.lookup_cons, beq_self_eq_true]
    · rw [if_neg hother, List.lookup_cons, beq_false_of_ne hother]
      exact Option.or_none

variable {paths : Paths} {path : String}

theorem read?_congr {f g : Folder}
    (h : ∀ name, paths path = some (.file name) → f.files.lookup name = g.files.lookup name) :
    f.read? paths path = g.read? paths path := by
  unfold read?
  split
  · next name hplace => exact h name hplace
  · rfl
  · rfl

theorem write?_file (f : Folder) (h : paths path = some (.file name)) (append : Bool)
    (text : String) :
    f.write? paths path append text =
      some (f.put name ((if append then (f.files.lookup name).getD "" else "") ++ text)) := by
  rw [write?, h]

end Folder

/-! ### What a file amounts to -/

namespace Options

/-- Where the failed games of a file go. -/
def target (o : Options) (path : String) : String := o.failedOut.getD (failedPath path)

/-- Some game of a text is refused a move, or its position. -/
def fails (o : Options) (text : String) : Bool :=
  (PgnGame.readGames text).any fun game => !(replay (some o.logLevel) game).1.passed

def failedText (o : Options) (text : String) : String :=
  failedGames ((replayAll o.threads (some o.logLevel) (PgnGame.readGames text)).map (·.1))
    (PgnGame.readGames text)

theorem failed_fileOutcome (o : Options) (path text : String) :
    (fileOutcome o path text).failed = if o.fails text then some (o.failedText text) else none := by
  have hcount : (((replayAll o.threads (some o.logLevel) (PgnGame.readGames text)).map (·.1)).filter
      (·.passed)).length =
        ((replayAll o.threads (some o.logLevel) (PgnGame.readGames text)).map (·.1)).length ↔
      ¬o.fails text = true := by
    rw [List.length_filter_eq_length_iff, replayAll_eq, List.map_map, List.forall_mem_map]
    simp [fails]
  unfold fileOutcome
  dsimp only
  by_cases hfails : o.fails text = true
  · rw [if_neg (fun hall => hcount.1 hall hfails), if_pos hfails]
    rfl
  · rw [if_pos (hcount.2 hfails), if_neg hfails]

end Options

namespace Batch

/-! ### What is written -/

/-- Failed games, and the path they are written to. -/
structure Write where
  path : String
  text : String
deriving DecidableEq

namespace Write

def leadsTo (paths : Paths) (w : Write) (name : String) : Bool := paths w.path == some (.file name)

/-- Of some writes to one file, the last being given first, those that are left: where a path is
used for the first time the file is emptied. -/
def remaining : List Write → List Write
  | [] => []
  | w :: earlier => w :: if earlier.any (·.path == w.path) then remaining earlier else []

def left (ws : List Write) : String := String.join ((remaining ws.reverse).reverse.map (·.text))

theorem join_snoc (ss : List String) (s : String) :
    String.join (ss ++ [s]) = String.join ss ++ s := by
  rw [String.join_append, String.join_cons, String.join_nil, String.append_empty]

theorem left_snoc (ws : List Write) (w : Write) :
    left (ws ++ [w]) = (if ∃ v ∈ ws, v.path = w.path then left ws else "") ++ w.text := by
  have hany : (ws.reverse.any (·.path == w.path) = true) ↔ ∃ v ∈ ws, v.path = w.path := by
    simp
  unfold left
  rw [List.reverse_append, List.reverse_singleton, List.singleton_append, remaining]
  by_cases hused : ∃ v ∈ ws, v.path = w.path
  · rw [if_pos (hany.2 hused), if_pos hused, List.reverse_cons, List.map_append]
    exact join_snoc _ _
  · rw [if_neg (mt hany.1 hused), if_neg hused]
    exact join_snoc [] _

end Write

variable (paths : Paths)

/-- What is written out for a file, as the folder stands. -/
def write? (o : Options) (folder : Folder) (path : String) : Option Write :=
  (folder.read? paths path).bind fun text =>
    if o.fails text then some ⟨o.target path, o.failedText text⟩ else none

def writes (o : Options) (folder : Folder) (files : List String) : List Write :=
  files.filterMap (write? paths o folder)

def shown (o : Options) (folder : Folder) (path : String) : String :=
  match folder.read? paths path with
  | none => ""
  | some text =>
    (fileOutcome o path text).summary ++ if o.fails text then writeNotice (o.target path) else ""

def told (o : Options) (folder : Folder) (path : String) : String :=
  match folder.read? paths path with
  | none => openFault path
  | some text => (fileOutcome o path text).log

/-- How bad it is about a file: it cannot be opened, or has a game that fails, or neither. -/
def codeOf (o : Options) (folder : Folder) (path : String) : Nat :=
  match folder.read? paths path with
  | none => 2
  | some text => if o.fails text then 1 else 0

/-- The exit code for some files: 2 if one cannot be opened, or else 1 if one has a game that
fails. -/
def exitCodeOf (o : Options) (folder : Folder) (files : List String) : Nat :=
  if ∃ path ∈ files, folder.read? paths path = none then 2
  else if ∃ path ∈ files, (folder.read? paths path).any o.fails = true then 1 else 0

def leftUnder (folder : Folder) (ws : List Write) (name : String) : Option String :=
  if ws.filter (·.leadsTo paths name) = [] then folder.files.lookup name
  else some (Write.left (ws.filter (·.leadsTo paths name)))

variable {paths} {o : Options} {folder : Folder} {b : Batch} {done : List String}
  {path name text : String}

theorem leadsTo_iff {w : Write} :
    w.leadsTo paths name = true ↔ paths w.path = some (.file name) :=
  beq_iff_eq

theorem exitCodeOf_snoc (o : Options) (folder : Folder) (done : List String) (path : String) :
    exitCodeOf paths o folder (done ++ [path]) =
      max (exitCodeOf paths o folder done) (codeOf paths o folder path) := by
  have hsnoc : ∀ P : String → Prop, (∃ p ∈ done ++ [path], P p) ↔ (∃ p ∈ done, P p) ∨ P path := by
    simp [or_and_right, exists_or]
  unfold exitCodeOf codeOf
  simp only [hsnoc]
  cases folder.read? paths path with
  | none =>
    rw [if_pos (.inr rfl)]
    dsimp only
    split_ifs <;> rfl
  | some text =>
    simp only [reduceCtorEq, or_false, Option.any_some]
    by_cases hfails : o.fails text = true
    · rw [if_pos hfails]
      simp only [hfails, or_true, if_true]
      split_ifs <;> rfl
    · rw [if_neg hfails, Nat.max_zero]
      simp only [hfails, Bool.false_eq_true, or_false]

/-! ### One file -/

theorem replayFile_missing (h : b.folder.read? paths path = none) :
    replayFile paths o b path =
      { b with errors := b.errors ++ openFault path, exitCode := max b.exitCode 2 } := by
  rw [replayFile, h]
  rfl

theorem replayFile_passed (h : b.folder.read? paths path = some text)
    (hfails : ¬o.fails text = true) :
    replayFile paths o b path =
      { b with
        output := b.output ++ (fileOutcome o path text).summary
        errors := b.errors ++ (fileOutcome o path text).log } := by
  have houtcome := o.failed_fileOutcome path text
  rw [if_neg hfails] at houtcome
  rw [replayFile, h]
  dsimp only
  rw [houtcome]
  rfl

theorem echo_file (h : paths path = some (.file name)) : b.echo paths path text = b := by
  rw [echo, h]

theorem replayFile_failed (h : b.folder.read? paths path = some text)
    (hfails : o.fails text = true) (hname : paths (o.target path) = some (.file name)) :
    replayFile paths o b path =
      { folder := b.folder.put name
          ((if o.target path ∈ b.written then (b.folder.files.lookup name).getD "" else "") ++
            o.failedText text)
        output := b.output ++ (fileOutcome o path text).summary ++ writeNotice (o.target path)
        errors := b.errors ++ (fileOutcome o path text).log
        exitCode := max b.exitCode 1
        written := b.written ++ [o.target path] } := by
  have houtcome := o.failed_fileOutcome path text
  rw [if_pos hfails] at houtcome
  rw [replayFile, h]
  dsimp only
  rw [houtcome]
  change writeFailed paths _ (o.target path) _ = _
  unfold writeFailed
  dsimp only [failWith, print, complain]
  rw [Folder.write?_file _ hname]
  refine (echo_file hname).trans ?_
  simp only [List.contains_iff_mem]

/-! ### A whole run -/

/-- How a run stands when some of its files have been gone through. -/
structure Accounts (paths : Paths) (o : Options) (folder : Folder) (done : List String)
    (b : Batch) : Prop where
  exitCode_eq : b.exitCode = exitCodeOf paths o folder done
  output_eq : b.output = String.join (done.map (shown paths o folder))
  errors_eq : b.errors = String.join (done.map (told paths o folder))
  written_eq : b.written = (writes paths o folder done).map (·.path)
  lookup_eq : ∀ name, b.folder.files.lookup name =
    leftUnder paths folder (writes paths o folder done) name

/-- Wherever failed games go there is a file to write. -/
def Writable (paths : Paths) (o : Options) (folder : Folder) (files : List String) : Prop :=
  ∀ w ∈ writes paths o folder files, ∃ name, paths w.path = some (.file name)

/-- No path that failed games go to leads to where a path to be read leads. -/
def Separate (paths : Paths) (o : Options) (folder : Folder) (files : List String) : Prop :=
  ∀ w ∈ writes paths o folder files, ∀ path ∈ files, paths path ≠ paths w.path

theorem writes_snoc (o : Options) (folder : Folder) (done : List String) (path : String) :
    writes paths o folder (done ++ [path]) =
      writes paths o folder done ++ (write? paths o folder path).toList := by
  rw [writes, List.filterMap_append]
  cases h : write? paths o folder path with
  | none => simp [h, writes]
  | some w => simp [h, writes]

theorem Accounts.read?_eq (h : Accounts paths o folder done b) {rest : List String}
    (hseparate : Separate paths o folder (done ++ path :: rest)) :
    b.folder.read? paths path = folder.read? paths path := by
  -- what was written so far went elsewhere than to the file about to be read
  apply Folder.read?_congr
  intro name hplace
  rw [h.lookup_eq, leftUnder, if_pos]
  rw [List.filter_eq_nil_iff]
  intro w hw hleads
  rw [leadsTo_iff] at hleads
  have hw' : w ∈ writes paths o folder (done ++ path :: rest) := by
    rw [writes, List.filterMap_append]
    exact List.mem_append_left _ hw
  apply hseparate w hw' path (List.mem_append_right _ List.mem_cons_self)
  rw [hplace, hleads]

theorem leftUnder_snoc (ws : List Write) (w : Write) (name : String) :
    leftUnder paths folder (ws ++ [w]) name =
      if w.leadsTo paths name then
        some ((if w.path ∈ ws.map (·.path) then (leftUnder paths folder ws name).getD "" else "") ++
          w.text)
      else leftUnder paths folder ws name := by
  unfold leftUnder
  rw [List.filter_append]
  by_cases hleads : w.leadsTo paths name = true
  -- a path used before leads to this file too, so whether to append is seen from its writes alone
  · have hused :
        (∃ v ∈ ws.filter (·.leadsTo paths name), v.path = w.path) ↔ w.path ∈ ws.map (·.path) := by
      rw [List.mem_map]
      constructor
      · rintro ⟨v, hv, hpath⟩
        exact ⟨v, (List.mem_filter.1 hv).1, hpath⟩
      · rintro ⟨v, hv, hpath⟩
        refine ⟨v, List.mem_filter.2 ⟨hv, ?_⟩, hpath⟩
        rw [leadsTo_iff, hpath]
        exact leadsTo_iff.1 hleads
    have hsingle : [w].filter (·.leadsTo paths name) = [w] := List.filter_cons_of_pos hleads
    rw [hsingle, if_neg (by simp), if_pos hleads, Write.left_snoc]
    simp only [hused]
    congr 2
    by_cases hmem : w.path ∈ ws.map (·.path)
    · obtain ⟨v, hv, -⟩ := hused.2 hmem
      rw [if_pos hmem, if_pos hmem, if_neg (List.ne_nil_of_mem hv)]
      rfl
    · rw [if_neg hmem, if_neg hmem]
  · have hnone : [w].filter (·.leadsTo paths name) = [] := List.filter_cons_of_neg hleads
    rw [hnone, List.append_nil, if_neg hleads]

theorem Accounts.snoc (h : Accounts paths o folder done b) {b' : Batch}
    (hcode : b'.exitCode = max b.exitCode (codeOf paths o folder path))
    (houtput : b'.output = b.output ++ shown paths o folder path)
    (herrors : b'.errors = b.errors ++ told paths o folder path)
    (hwritten : b'.written = b.written ++ (write? paths o folder path).toList.map (·.path))
    (hlookup : ∀ name, b'.folder.files.lookup name =
      leftUnder paths folder
        (writes paths o folder done ++ (write? paths o folder path).toList) name) :
    Accounts paths o folder (done ++ [path]) b' where
  exitCode_eq := by rw [hcode, exitCodeOf_snoc, h.exitCode_eq]
  output_eq := by
    rw [houtput, List.map_append, h.output_eq]
    exact (Write.join_snoc _ _).symm
  errors_eq := by
    rw [herrors, List.map_append, h.errors_eq]
    exact (Write.join_snoc _ _).symm
  written_eq := by rw [hwritten, writes_snoc, List.map_append, h.written_eq]
  lookup_eq := by
    rw [writes_snoc]
    exact hlookup

theorem Accounts.missing (h : Accounts paths o folder done b)
    (hread : b.folder.read? paths path = none) (htext : folder.read? paths path = none) :
    Accounts paths o folder (done ++ [path]) (replayFile paths o b path) := by
  rw [replayFile_missing hread]
  have hwrite : write? paths o folder path = none := by rw [write?, htext, Option.bind_none]
  apply h.snoc
  · rw [codeOf, htext]
  · rw [shown, htext]
    exact String.append_empty.symm
  · rw [told, htext]
  · rw [hwrite]
    exact (List.append_nil _).symm
  · rw [hwrite, Option.toList_none, List.append_nil]
    exact h.lookup_eq

theorem Accounts.passed (h : Accounts paths o folder done b)
    (hread : b.folder.read? paths path = some text) (htext : folder.read? paths path = some text)
    (hfails : ¬o.fails text = true) :
    Accounts paths o folder (done ++ [path]) (replayFile paths o b path) := by
  rw [replayFile_passed hread hfails]
  have hwrite : write? paths o folder path = none := by
    rw [write?, htext, Option.bind_some, if_neg hfails]
  apply h.snoc
  · rw [codeOf, htext]
    dsimp only
    rw [if_neg hfails, Nat.max_zero]
  · rw [shown, htext]
    dsimp only
    rw [if_neg hfails, String.append_empty]
  · rw [told, htext]
  · rw [hwrite]
    exact (List.append_nil _).symm
  · rw [hwrite, Option.toList_none, List.append_nil]
    exact h.lookup_eq

theorem Accounts.failed (h : Accounts paths o folder done b)
    (hread : b.folder.read? paths path = some text) (htext : folder.read? paths path = some text)
    (hfails : o.fails text = true) (hname : paths (o.target path) = some (.file name)) :
    Accounts paths o folder (done ++ [path]) (replayFile paths o b path) := by
  rw [replayFile_failed hread hfails hname]
  have hwrite : write? paths o folder path = some ⟨o.target path, o.failedText text⟩ := by
    rw [write?, htext, Option.bind_some, if_pos hfails]
  apply h.snoc
  · rw [codeOf, htext]
    dsimp only
    rw [if_pos hfails]
  · rw [shown, htext]
    dsimp only
    rw [if_pos hfails, String.append_assoc]
  · rw [told, htext]
  · rw [hwrite]
    rfl
  · intro other
    rw [hwrite, Option.toList_some, leftUnder_snoc, ← h.lookup_eq, ← h.written_eq,
      Folder.lookup_put]
    by_cases hother : other = name
    · rw [if_pos hother, if_pos (leadsTo_iff.2 (hother ▸ hname)), hother]
    · have hleads : ¬Write.leadsTo paths ⟨o.target path, o.failedText text⟩ other = true := by
        rw [leadsTo_iff, hname]
        exact fun hsame => hother (Place.file.inj (Option.some.inj hsame)).symm
      rw [if_neg hother, if_neg hleads]

theorem Accounts.replayFile (h : Accounts paths o folder done b) {rest : List String}
    (hwritable : Writable paths o folder (done ++ path :: rest))
    (hseparate : Separate paths o folder (done ++ path :: rest)) :
    Accounts paths o folder (done ++ [path]) (replayFile paths o b path) := by
  have hread := h.read?_eq hseparate
  cases htext : folder.read? paths path with
  | none => exact h.missing (hread.trans htext) htext
  | some text =>
    by_cases hfails : o.fails text = true
    · have hmem : ⟨o.target path, o.failedText text⟩ ∈
          writes paths o folder (done ++ path :: rest) := by
        rw [writes, List.mem_filterMap]
        refine ⟨path, List.mem_append_right _ List.mem_cons_self, ?_⟩
        rw [write?, htext, Option.bind_some, if_pos hfails]
      obtain ⟨name, hname⟩ := hwritable _ hmem
      exact h.failed (hread.trans htext) htext hfails hname
    · exact h.passed (hread.trans htext) htext hfails

theorem Accounts.run (h : Accounts paths o folder done b) {rest : List String}
    (hwritable : Writable paths o folder (done ++ rest))
    (hseparate : Separate paths o folder (done ++ rest)) :
    Accounts paths o folder (done ++ rest) (rest.foldl (Batch.replayFile paths o) b) := by
  induction rest generalizing done b with
  | nil =>
    rw [List.append_nil]
    exact h
  | cons path rest ih =>
    have hnext := h.replayFile hwritable hseparate
    rw [← List.singleton_append, ← List.append_assoc] at hwritable hseparate ⊢
    exact ih hnext hwritable hseparate

end Batch

end ChessArbiter
