import Renaming.Proofs.SortedMap
import Renaming.Proofs.Text
import Renaming.RenameTable.Reader

/-!
# Loading tables line by line

A mapping text is read as the sequence of its statements, the lines that are neither blank nor
comments. Each statement is accepted, ignored or refused on its own: a refused one leaves the table
as it was, and of the accepted ones the last that writes a key decides what the key leads to. So
texts may be loaded one after the other or joined at a line feed.
-/

namespace Renaming

/-! ## Entries by their keys -/

/-- What an entry of a table is looked up by. -/
inductive TableKey where
  | symbol (old : Signature)
  | parameter (method : Signature) (index : Nat)
  | package (old : String)
  deriving DecidableEq

namespace Renamed

def key : Renamed → TableKey
  | symbol old _ => .symbol old
  | parameter method index _ => .parameter method index
  | package old _ => .package old

def newName : Renamed → String
  | symbol _ new => new
  | parameter _ _ new => new
  | package _ new => new

end Renamed

namespace RenameTable

def get? (t : RenameTable) : TableKey → Option String
  | .symbol old => t.symbol? old
  | .parameter method index => t.parameter? method index
  | .package old => t.package? old

theorem get?_insert (t : RenameTable) (e : Renamed) (k : TableKey) :
    (t.insert e).get? k = if k = e.key then some e.newName else t.get? k := by
  cases e <;> cases k <;>
    simp [insert, get?, symbol?, parameter?, package?, Renamed.key, Renamed.newName,
      SortedMap.get?_insert]

theorem insertAll_append (t : RenameTable) (entries more : List Renamed) :
    t.insertAll (entries ++ more) = (t.insertAll entries).insertAll more :=
  List.foldl_append

/-- Entries of different keys can all be found after they are put in. -/
theorem get?_insertAll {entries : List Renamed} (h : (entries.map Renamed.key).Nodup)
    (t : RenameTable) (k : TableKey) :
    (t.insertAll entries).get? k =
      ((entries.find? (·.key = k)).map Renamed.newName).or (t.get? k) := by
  induction entries generalizing t with
  | nil => rfl
  | cons e rest ih =>
    obtain ⟨hfresh, hrest⟩ := List.nodup_cons.1 h
    have hstep : (t.insertAll (e :: rest)).get? k =
        ((rest.find? (·.key = k)).map Renamed.newName).or ((t.insert e).get? k) :=
      ih hrest (t.insert e)
    by_cases hk : e.key = k
    · have hnone : rest.find? (·.key = k) = none := by
        rw [List.find?_eq_none]
        intro other hother hkey
        have hsame : other.key = e.key := (of_decide_eq_true hkey).trans hk.symm
        exact hfresh (List.mem_map.2 ⟨other, hother, hsame⟩)
      rw [hstep, hnone, get?_insert, if_pos hk.symm]
      simp [hk]
    · rw [hstep, get?_insert, if_neg (Ne.symm hk)]
      simp [hk]

end RenameTable

/-! ## Statements of a text -/

namespace Text

theorem trimStart_append_blank (cs : List Char) {c : Char} (hc : isBlank c = true) :
    trimEnd (trimStart (cs ++ [c])) = trimEnd (trimStart cs) := by
  unfold trimStart
  rw [List.dropWhile_append]
  split
  · rename_i hblank
    have hnil : cs.dropWhile isBlank = [] := List.isEmpty_iff.1 hblank
    simp [hnil, hc]
  · simp [trimEnd, hc]

/-- A carriage return at the end is a blank like others. -/
theorem trim_dropReturn (cs : List Char) :
    trim (String.ofList (dropReturn '\r' cs)) = trim (String.ofList cs) := by
  unfold dropReturn
  split
  · rename_i hlast
    obtain ⟨front, rfl⟩ := List.getLast?_eq_some_iff.1 (eq_of_beq hlast)
    rw [List.dropLast_concat, trim, trim, String.toList_ofList, String.toList_ofList,
      trimStart_append_blank front (by decide)]
  · rfl

end Text

namespace MappingLine

/-- A line that has lost the blanks around it says something if it is not empty and no comment. -/
def isStatement (line : String) : Bool := !(line.isEmpty || Text.startsWith "#" line)

/-- The statements of a text, in order, without the blanks around them. -/
def statements (text : String) : List String :=
  ((Text.lines text).map Text.trim).filter isStatement

/-- How lines are ended makes no difference to what they state. -/
theorem statements_eq (text : String) :
    statements text =
      ((text.toList.splitOn '\n').map fun cs => Text.trim (String.ofList cs)).filter
        isStatement := by
  unfold statements Text.lines Text.splitLines
  rcases List.eq_nil_or_concat (text.toList.splitOn '\n') with hnil | ⟨init, last, hpieces⟩
  · exact absurd hnil (List.splitOn_ne_nil '\n' text.toList)
  rw [hpieces]
  cases last with
  | nil =>
    -- what follows the last line feed is blank
    have hblank : isStatement (Text.trim "") = false := by decide
    simp [Function.comp_def, Text.trim_dropReturn, hblank]
  | cons c cs => simp [Function.comp_def, Text.trim_dropReturn]

theorem statements_append (s t : String) :
    statements (s ++ "\n" ++ t) = statements s ++ statements t := by
  have hsplit : (s ++ "\n" ++ t).toList.splitOn '\n' =
      s.toList.splitOn '\n' ++ t.toList.splitOn '\n' := by
    rw [← List.splitOn_append_cons_self]
    simp
  rw [statements_eq, hsplit, List.map_append, List.filter_append, ← statements_eq, ← statements_eq]

/-- The statements of a text with the numbers of their lines, counted from one. -/
def numbered (text : String) : List (String × Nat) :=
  ((Text.lines text).zipIdx.map fun raw => (Text.trim raw.1, raw.2 + 1)).filter
    fun line => isStatement line.1

theorem map_fst_numbered (text : String) : (numbered text).map Prod.fst = statements text := by
  have hlines : (Text.lines text).map Text.trim =
      ((Text.lines text).zipIdx.map fun raw => (Text.trim raw.1, raw.2 + 1)).map Prod.fst := by
    rw [List.map_map]
    conv =>
      lhs
      rw [← List.zipIdx_map_fst 0 (Text.lines text), List.map_map]
    rfl
  rw [statements, hlines, List.filter_map]
  rfl

theorem mem_numbered_iff {text line : String} {n : Nat} :
    (line, n) ∈ numbered text ↔
      ∃ raw i, n = i + 1 ∧ (Text.lines text)[i]? = some raw ∧ line = Text.trim raw ∧
        isStatement line = true := by
  simp only [numbered, List.mem_filter, List.mem_map, Prod.exists, Prod.mk.injEq,
    List.mem_zipIdx_iff_getElem?]
  constructor
  · rintro ⟨⟨raw, i, hraw, rfl, rfl⟩, hline⟩
    exact ⟨raw, i, rfl, hraw, rfl, hline⟩
  · rintro ⟨raw, i, rfl, hraw, rfl, hline⟩
    exact ⟨⟨raw, i, hraw, rfl, rfl⟩, hline⟩

theorem pairwise_numbered (text : String) : (numbered text).Pairwise fun a b => a.2 < b.2 := by
  apply List.Pairwise.filter
  rw [List.pairwise_map]
  have hlt : (Text.lines text).zipIdx.Pairwise fun a b => a.2 < b.2 := by
    have hrange := List.pairwise_lt_range' (s := 0) (n := (Text.lines text).length)
    rw [← List.zipIdx_map_snd, List.pairwise_map] at hrange
    exact hrange
  exact hlt.imp fun h => Nat.succ_lt_succ h

/-! ## What one line says

The entries of a line, read off without a table: all checks come first.
-/

def codedEntries (head : String) (args : List String) : Except LineError (List Renamed) :=
  match head with
  | "PK:" => do
    let (old, new) ← two head args
    return [.package (packageName old) (packageName new)]
  | "CL:" => do
    let (old, new) ← two head args
    return [.symbol (dotted old) (dotted new)]
  | "FD:" => do
    let (old, new) ← two head args
    let (owner, name) ← splitMember old
    let (_, newName) ← splitMember new
    return [.symbol (dotted owner ++ "." ++ name) newName]
  | "MD:" => do
    let (old, desc, new, _) ← four head args
    checkDescriptor desc
    let (owner, name) ← splitMember old
    let (_, newName) ← splitMember new
    return [.symbol (dotted owner ++ "." ++ name ++ desc) newName]
  | _ => .error (.unknownCode head)

def kindEntries (head : String) (args : List String) : Except LineError (List Renamed) :=
  match head with
  | "class" | "type" => do
    let (old, new) ← two head args
    return [.symbol old new]
  | "field" => do
    let (old, new) ← two head args
    if Text.containsChar '.' old then return [.symbol old new]
    else throw (.fieldWithoutOwner old)
  | "method" => do
    let (key, new) ← methodKey head args
    return [.symbol key new]
  | "param" | "parameter" => do
    let (old, new) ← two head args
    if (Signature.splitParameter old).isSome then return [.symbol old new]
    else throw (.notParameter old)
  | "local" => do
    let (old, new) ← two head args
    if Text.containsChar '@' old then return [.symbol old new] else throw (.notLocal old)
  | "package" => do
    let (old, new) ← two head args
    return [.package old new]
  | _ => .error (.unknownKind head)

def primaryEntries (line : String) : Except LineError (List Renamed) :=
  match Text.words line with
  | [] => .error .empty
  | head :: args =>
    if Text.endsWith ":" head then codedEntries head args else kindEntries head args

/-- The entry of a name in a list of names; an empty name has none. -/
def namedParameter? (method : Signature) (name : String × Nat) : Option Renamed :=
  if name.1.isEmpty then none else some (.parameter method name.2 name.1)

def namedParameters (method : Signature) (names : List String) : List Renamed :=
  names.zipIdx.filterMap (namedParameter? method)

def exceptionEntries (key rest : String) : Except LineError (List Renamed) :=
  match cutAtParen key with
  | none => .ok []
  | some (path, desc) => do
    checkDescriptor desc
    match Text.cutFirst '|' rest with
    | none => return []
    | some (_, names) =>
      return namedParameters (dotted path ++ desc) ((Text.fields ',' names).map Text.trim)

def secondaryEntries (line : String) : Except LineError (List Renamed) :=
  match Text.cutFirst '=' line with
  | some (key, rest) => exceptionEntries (Text.trim key) (Text.trim rest)
  | none =>
    match Text.words line with
    | [method, index, name] => do
      checkMethodKey method
      match Text.readOffset index with
      | none => throw (.badIndex index)
      | some i => return [.parameter method i name]
    | [key, name] =>
      match Signature.splitParameter key with
      | none => .error (.notParameterKey key)
      | some (method, i) => .ok [.parameter method i name]
    | fields => .error (.fieldCount fields.length)

/-- Unless it is refused, the line has one entry. -/
def Single (said : Except LineError (List Renamed)) : Prop :=
  ∀ entries, said = .ok entries → ∃ e, entries = [e]

namespace Single

theorem one (e : Renamed) : Single (.ok [e]) := by
  rintro _ ⟨⟩
  exact ⟨e, rfl⟩

theorem refused (reason : LineError) : Single (.error reason) := nofun

theorem bind {α : Type} (x : Except LineError α) {f : α → Except LineError (List Renamed)}
    (h : ∀ a, Single (f a)) : Single (x >>= f) := by
  cases x with
  | error reason => exact refused reason
  | ok a => exact h a

theorem ite {p : Prop} [Decidable p] {x y : Except LineError (List Renamed)} (hx : Single x)
    (hy : Single y) : Single (if p then x else y) := by
  split
  · exact hx
  · exact hy

end Single

theorem single_codedEntries (head : String) (args : List String) :
    Single (codedEntries head args) := by
  unfold codedEntries
  split
  · exact .bind _ fun _ => .one _
  · exact .bind _ fun _ => .one _
  · exact .bind _ fun _ => .bind _ fun _ => .bind _ fun _ => .one _
  · exact .bind _ fun _ => .bind _ fun _ => .bind _ fun _ => .bind _ fun _ => .one _
  · exact .refused _

theorem single_kindEntries (head : String) (args : List String) :
    Single (kindEntries head args) := by
  unfold kindEntries
  split
  · exact .bind _ fun _ => .one _
  · exact .bind _ fun _ => .one _
  · exact .bind _ fun _ => .ite (.one _) (.refused _)
  · exact .bind _ fun _ => .one _
  · exact .bind _ fun _ => .ite (.one _) (.refused _)
  · exact .bind _ fun _ => .ite (.one _) (.refused _)
  · exact .bind _ fun _ => .ite (.one _) (.refused _)
  · exact .bind _ fun _ => .one _
  · exact .refused _

theorem single_primaryEntries (line : String) : Single (primaryEntries line) := by
  unfold primaryEntries
  split
  · exact .refused _
  · exact .ite (single_codedEntries _ _) (single_kindEntries _ _)

/-- The entries of a line; a line that is refused has none. -/
def entriesOf : Except LineError (List Renamed) → List Renamed
  | .error _ => []
  | .ok entries => entries

/-! ## What one line does to a table -/

/-- Whatever the table, a reader puts in what the line says, all of it or nothing, and answers by
it. -/
def Reads {α : Type} (answer : List Renamed → α) (reader : LineReader α)
    (said : Except LineError (List Renamed)) : Prop :=
  ∀ t, reader.run t = (said.map answer, t.insertAll (entriesOf said))

namespace Reads

variable {α β : Type} {answer : List Renamed → α}

theorem refuse (reason : LineError) : Reads answer (throw reason) (.error reason) := fun _ => rfl

theorem nothing : Reads answer (pure (answer [])) (.ok []) := fun _ => rfl

theorem put (e : Renamed) : Reads (fun _ => ()) (put e) (.ok [e]) := fun _ => rfl

/-- A check comes before anything that is put in. -/
theorem check (x : Except LineError β) {next : β → LineReader α}
    {said : β → Except LineError (List Renamed)} (h : ∀ b, Reads answer (next b) (said b)) :
    Reads answer (liftM x >>= next) (x >>= said) := by
  cases x with
  | error reason => exact fun _ => rfl
  | ok b => exact h b

theorem ite {p : Prop} [Decidable p] {r s : LineReader α}
    {said other : Except LineError (List Renamed)} (hr : Reads answer r said)
    (hs : Reads answer s other) :
    Reads answer (if p then r else s) (if p then said else other) := by
  split
  · exact hr
  · exact hs

/-- The answer is given after everything is put in. -/
theorem answered {r : LineReader Unit} {said : Except LineError (List Renamed)} {a : α}
    (h : Reads (fun _ => ()) r said) (ha : ∀ entries, said = .ok entries → answer entries = a) :
    Reads answer (r >>= fun _ => pure a) said := by
  intro t
  have hrun : (r >>= fun _ => pure a).run t = ((r.run t).1.map fun _ => a, (r.run t).2) := by
    change (match r.run t with
      | (x, u) => (ExceptT.bindCont (fun _ => pure a) x : StateM _ (Except LineError α)) u) = _
    rcases r.run t with ⟨_ | _, u⟩ <;> rfl
  rw [hrun, h t]
  cases said with
  | error reason => rfl
  | ok entries => exact congrArg (fun a => (Except.ok a, _)) (ha entries rfl).symm

end Reads

theorem reads_coded (head : String) (args : List String) :
    Reads (fun _ => ()) (readCoded head args) (codedEntries head args) := by
  unfold readCoded
  split
  · exact .check _ fun _ => .put _
  · exact .check _ fun _ => .put _
  · exact .check _ fun _ => .check _ fun _ => .check _ fun _ => .put _
  · exact .check _ fun _ => .check _ fun _ => .check _ fun _ => .check _ fun _ => .put _
  · rename_i hpackage hclass hfield hmethod
    rw [codedEntries.eq_5 _ _ hpackage hclass hfield hmethod]
    exact .refuse _

theorem reads_kind (head : String) (args : List String) :
    Reads (fun _ => ()) (readKind head args) (kindEntries head args) := by
  unfold readKind
  split
  · exact .check _ fun _ => .put _
  · exact .check _ fun _ => .put _
  · exact .check _ fun _ => .ite (.put _) (.refuse _)
  · exact .check _ fun _ => .put _
  · exact .check _ fun _ => .ite (.put _) (.refuse _)
  · exact .check _ fun _ => .ite (.put _) (.refuse _)
  · exact .check _ fun _ => .ite (.put _) (.refuse _)
  · exact .check _ fun _ => .put _
  · rename_i hclass htype hfield hmethod hparam hparameter hlocal hpackage
    rw [kindEntries.eq_9 _ _ hclass htype hfield hmethod hparam hparameter hlocal hpackage]
    exact .refuse _

theorem reads_primary (line : String) :
    Reads (fun _ => ()) (readPrimary line) (primaryEntries line) := by
  unfold readPrimary primaryEntries
  cases Text.words line with
  | nil => exact .refuse _
  | cons head args => exact .ite (reads_coded _ _) (reads_kind _ _)

/-- Names are put in one after the other, each at its own index. -/
theorem reads_putNames (method : Signature) (names : List (String × Nat)) :
    Reads (fun _ => ()) (putNames method names)
      (.ok (names.filterMap (namedParameter? method))) := by
  induction names with
  | nil => exact .nothing
  | cons name rest ih =>
    intro t
    rw [List.filterMap_cons, namedParameter?]
    cases hempty : name.1.isEmpty with
    | true =>
      have hskip : putNames method (name :: rest) = putNames method rest := by
        simp [putNames, hempty]
      rw [hskip]
      exact ih t
    | false =>
      have hput : putNames method (name :: rest) =
          put (.parameter method name.2 name.1) >>= fun _ => putNames method rest := by
        simp [putNames, hempty]
      rw [hput]
      exact ih (t.insert (.parameter method name.2 name.1))

theorem namedParameters_eq_nil_iff {method : Signature} {names : List String} :
    namedParameters method names = [] ↔ names.all String.isEmpty = true := by
  have hnone : ∀ name, namedParameter? method name = none ↔ name.1.isEmpty = true := by
    intro name
    simp [namedParameter?]
  simp only [namedParameters, List.filterMap_eq_nil_iff, hnone, List.all_eq_true]
  constructor
  · intro h name hname
    obtain ⟨i, hi⟩ := List.mem_iff_getElem?.1 hname
    exact h (name, i) (List.mem_zipIdx_iff_getElem?.2 hi)
  · rintro h ⟨name, i⟩ hname
    exact h name (List.mem_of_getElem? (List.mem_zipIdx_iff_getElem?.1 hname))

/-- Whether any parameter is named. -/
def namesAny (entries : List Renamed) : Bool := !entries.isEmpty

theorem reads_exception (key rest : String) :
    Reads namesAny (readException key rest) (exceptionEntries key rest) := by
  unfold readException exceptionEntries
  rcases cutAtParen key with _ | ⟨path, desc⟩
  · exact .nothing
  · refine .check _ fun _ => ?_
    rcases Text.cutFirst '|' rest with _ | ⟨_, list⟩
    · exact .nothing
    · dsimp only
      by_cases hall : ((Text.fields ',' list).map Text.trim).all String.isEmpty = true
      · rw [if_pos hall, namedParameters_eq_nil_iff.2 hall]
        exact .nothing
      · rw [if_neg hall]
        refine .answered (reads_putNames _ _) ?_
        rintro entries ⟨⟩
        have hsome : namedParameters (dotted path ++ desc) _ ≠ [] :=
          mt namedParameters_eq_nil_iff.1 hall
        simpa [namesAny, namedParameters] using hsome

theorem reads_one (e : Renamed) : Reads namesAny (put e >>= fun _ => pure true) (.ok [e]) := by
  refine .answered (.put e) ?_
  rintro _ ⟨⟩
  rfl

theorem reads_secondary (line : String) :
    Reads namesAny (readSecondary line) (secondaryEntries line) := by
  unfold readSecondary secondaryEntries
  rcases Text.cutFirst '=' line with _ | ⟨key, rest⟩
  · dsimp only
    match Text.words line with
    | [method, index, name] =>
      refine .check _ fun _ => ?_
      cases Text.readOffset index with
      | none => exact .refuse _
      | some i => exact reads_one _
    | [key, name] =>
      cases hkey : Signature.splitParameter key with
      | none =>
        simp only [hkey]
        exact .refuse _
      | some parameter =>
        simp only [hkey]
        exact reads_one _
    | [] => exact .refuse _
    | [_] => exact .refuse _
    | _ :: _ :: _ :: _ :: _ => exact .refuse _
  · exact reads_exception _ _

theorem reads_primaryLine (line : String) :
    Reads namesAny (RenameTable.Loading.primaryLine line) (primaryEntries line) := by
  refine .answered (reads_primary line) fun entries hentries => ?_
  obtain ⟨e, rfl⟩ := single_primaryEntries line entries hentries
  rfl

/-! ## Each line writes a key once -/

/-- The entries of a line, if any, are for different keys. -/
def Distinct (said : Except LineError (List Renamed)) : Prop :=
  ∀ entries, said = .ok entries → (entries.map Renamed.key).Nodup

theorem Single.distinct {said : Except LineError (List Renamed)} (h : Single said) :
    Distinct said := by
  intro entries hentries
  obtain ⟨e, rfl⟩ := h entries hentries
  simp

/-- The names of one line are for parameters of different indices. -/
theorem nodup_namedParameters (method : Signature) (names : List String) :
    ((namedParameters method names).map Renamed.key).Nodup := by
  have hindices : (names.zipIdx.map Prod.snd).Nodup := by
    rw [List.zipIdx_map_snd]
    exact List.nodup_range'
  have hkey : ∀ (name : String × Nat) (k : TableKey),
      (namedParameter? method name).map Renamed.key = some k → k = .parameter method name.2 := by
    intro name k hk
    unfold namedParameter? at hk
    split at hk
    · cases hk
    · cases hk
      rfl
  rw [namedParameters, List.map_filterMap]
  apply List.Pairwise.filterMap _ _ (List.pairwise_map.1 hindices)
  intro a b hne k hk k' hk' heq
  rw [hkey a k hk, hkey b k' hk', TableKey.parameter.injEq] at heq
  exact hne heq.2

theorem distinct_exceptionEntries (key rest : String) : Distinct (exceptionEntries key rest) := by
  unfold exceptionEntries
  split
  · rintro _ ⟨⟩
    exact List.nodup_nil
  · cases checkDescriptor _ with
    | error reason => exact nofun
    | ok _ =>
      rcases Text.cutFirst '|' rest with _ | ⟨_, names⟩
      · rintro _ ⟨⟩
        exact List.nodup_nil
      · rintro _ ⟨⟩
        exact nodup_namedParameters _ _

theorem distinct_secondaryEntries (line : String) : Distinct (secondaryEntries line) := by
  unfold secondaryEntries
  split
  · exact distinct_exceptionEntries _ _
  · apply Single.distinct
    split
    · refine .bind _ fun _ => ?_
      split
      · exact .refused _
      · exact .one _
    · split
      · exact .refused _
      · exact .one _
    · exact .refused _

/-- The new name that a line gives to a key. -/
def written? (tells : String → Except LineError (List Renamed)) (k : TableKey) (line : String) :
    Option String :=
  ((entriesOf (tells line)).find? (·.key = k)).map Renamed.newName

def isAccepted : Except LineError (List Renamed) → Bool
  | .ok (_ :: _) => true
  | _ => false

def isIgnored : Except LineError (List Renamed) → Bool
  | .ok [] => true
  | _ => false

/-- The account of a numbered line if it is refused. -/
def refusal? (tells : String → Except LineError (List Renamed)) (source : String)
    (line : String × Nat) : Option SkippedLine :=
  match tells line.1 with
  | .error reason => some ⟨source, line.2, reason⟩
  | .ok _ => none

end MappingLine

/-- How many lines a report accounts for. -/
def LoadReport.total (r : LoadReport) : Nat := r.accepted + r.ignored + r.skipped.length

namespace RenameTable.Loading

open MappingLine

variable (tells : String → Except LineError (List Renamed)) (source : String)

/-- What a line does to a loading, by what it says. -/
def note (l : Loading) (n : Nat) : Except LineError (List Renamed) → Loading
  | .error reason =>
    { l with report := { l.report with skipped := l.report.skipped ++ [⟨source, n, reason⟩] } }
  | .ok [] => { l with report := { l.report with ignored := l.report.ignored + 1 } }
  | .ok entries =>
    { table := l.table.insertAll entries
      report := { l.report with accepted := l.report.accepted + 1 } }

theorem take_eq {line : LineReader Bool} {said : Except LineError (List Renamed)}
    (h : Reads namesAny line said) (l : Loading) (n : Nat) :
    l.take source n line = l.note source n said := by
  rw [take, h l.table]
  rcases said with reason | ⟨_ | ⟨e, rest⟩⟩ <;> rfl

/-- Notes numbered lines one by one. -/
def noteAll (l : Loading) (lines : List (String × Nat)) : Loading :=
  lines.foldl (fun l line => l.note source line.2 (tells line.1)) l

variable {tells} in
theorem readText_eq {read : String → LineReader Bool}
    (hread : ∀ line, Reads namesAny (read line) (tells line)) (l : Loading) (text : String) :
    l.readText read source text = l.noteAll tells source (numbered text) := by
  have hstep : ∀ (l : Loading) (raw : String × Nat),
      (if isStatement (Text.trim raw.1) then
        l.note source (raw.2 + 1) (tells (Text.trim raw.1)) else l) =
      (if (Text.trim raw.1).isEmpty || Text.startsWith "#" (Text.trim raw.1) then l
      else l.take source (raw.2 + 1) (read (Text.trim raw.1))) := by
    intro l raw
    rw [take_eq source (hread _)]
    unfold isStatement
    cases (Text.trim raw.1).isEmpty || Text.startsWith "#" (Text.trim raw.1) <;> rfl
  rw [noteAll, numbered, List.foldl_filter, List.foldl_map]
  simp only [hstep]
  rfl

/-! ## One line -/

theorem table_note (l : Loading) (n : Nat) (result : Except LineError (List Renamed)) :
    (l.note source n result).table = l.table.insertAll (entriesOf result) := by
  rcases result with reason | ⟨_ | ⟨e, rest⟩⟩ <;> rfl

theorem accepted_note (l : Loading) (n : Nat) (result : Except LineError (List Renamed)) :
    (l.note source n result).report.accepted =
      l.report.accepted + (isAccepted result).toNat := by
  rcases result with reason | ⟨_ | ⟨e, rest⟩⟩ <;> rfl

theorem ignored_note (l : Loading) (n : Nat) (result : Except LineError (List Renamed)) :
    (l.note source n result).report.ignored = l.report.ignored + (isIgnored result).toNat := by
  rcases result with reason | ⟨_ | ⟨e, rest⟩⟩ <;> rfl

theorem skipped_note (l : Loading) (line : String × Nat) :
    (l.note source line.2 (tells line.1)).report.skipped =
      l.report.skipped ++ (refusal? tells source line).toList := by
  unfold refusal?
  rcases tells line.1 with reason | ⟨_ | ⟨e, rest⟩⟩
  · rfl
  · simp [note]
  · simp [note]

theorem total_note (l : Loading) (n : Nat) (result : Except LineError (List Renamed)) :
    (l.note source n result).report.total = l.report.total + 1 := by
  rcases result with reason | ⟨_ | ⟨e, rest⟩⟩
  · simp only [note, LoadReport.total, List.length_append, List.length_singleton]
    omega
  · simp only [note, LoadReport.total]
    omega
  · simp only [note, LoadReport.total]
    omega

/-! ## Line after line -/

/-- What grows by one with some lines grows by the number of these lines. -/
theorem count_noteAll {f : Loading → Nat} {p : Except LineError (List Renamed) → Bool}
    (hstep : ∀ l n result, f (l.note source n result) = f l + (p result).toNat) (l : Loading)
    (lines : List (String × Nat)) :
    f (l.noteAll tells source lines) =
      f l + (lines.map Prod.fst).countP fun line => p (tells line) := by
  induction lines generalizing l with
  | nil => rfl
  | cons line rest ih =>
    have hrest : f (l.noteAll tells source (line :: rest)) =
        f (l.note source line.2 (tells line.1)) +
          (rest.map Prod.fst).countP fun line => p (tells line) := ih _
    rw [hrest, hstep, List.map_cons, List.countP_cons]
    cases p (tells line.1) with
    | false => simp
    | true =>
      simp only [Bool.toNat_true, if_true]
      omega

theorem table_noteAll (l : Loading) (lines : List (String × Nat)) :
    (l.noteAll tells source lines).table =
      l.table.insertAll ((lines.map Prod.fst).flatMap fun line => entriesOf (tells line)) := by
  induction lines generalizing l with
  | nil => rfl
  | cons line rest ih =>
    rw [List.map_cons, List.flatMap_cons, insertAll_append, ← table_note source l line.2]
    exact ih _

theorem skipped_noteAll (l : Loading) (lines : List (String × Nat)) :
    (l.noteAll tells source lines).report.skipped =
      l.report.skipped ++ lines.filterMap (refusal? tells source) := by
  induction lines generalizing l with
  | nil => simp [noteAll]
  | cons line rest ih =>
    have hrest : (l.noteAll tells source (line :: rest)).report.skipped =
        (l.note source line.2 (tells line.1)).report.skipped ++
          rest.filterMap (refusal? tells source) := ih _
    rw [hrest, skipped_note, List.append_assoc, List.filterMap_cons]
    cases refusal? tells source line <;> rfl

/-- The last line that writes a key decides. -/
theorem get?_noteAll {tells : String → Except LineError (List Renamed)}
    (hread : ∀ line, Distinct (tells line)) (l : Loading) (lines : List (String × Nat))
    (k : TableKey) :
    (l.noteAll tells source lines).table.get? k =
      ((lines.map Prod.fst).reverse.findSome? (written? tells k)).or (l.table.get? k) := by
  induction lines generalizing l with
  | nil => rfl
  | cons line rest ih =>
    have hrest : (l.noteAll tells source (line :: rest)).table.get? k =
        ((rest.map Prod.fst).reverse.findSome? (written? tells k)).or
          ((l.note source line.2 (tells line.1)).table.get? k) := ih _
    have hline : (l.note source line.2 (tells line.1)).table.get? k =
        (written? tells k line.1).or (l.table.get? k) := by
      rw [table_note, written?]
      cases hresult : tells line.1 with
      | error reason => rfl
      | ok entries => exact get?_insertAll (hread line.1 entries hresult) l.table k
    rw [hrest, hline, List.map_cons, List.reverse_cons, List.findSome?_append, Option.or_assoc]
    simp

section

variable {tells} {read : String → LineReader Bool}
  (hread : ∀ line, Reads namesAny (read line) (tells line))

include hread

theorem readText_table (l : Loading) (text : String) :
    (l.readText read source text).table =
      l.table.insertAll ((statements text).flatMap fun line => entriesOf (tells line)) := by
  rw [readText_eq source hread, table_noteAll, map_fst_numbered]

theorem readText_accepted (l : Loading) (text : String) :
    (l.readText read source text).report.accepted =
      l.report.accepted + (statements text).countP fun line => isAccepted (tells line) := by
  rw [readText_eq source hread, ← map_fst_numbered]
  exact count_noteAll tells source (f := fun l => l.report.accepted) (accepted_note source) l _

theorem readText_ignored (l : Loading) (text : String) :
    (l.readText read source text).report.ignored =
      l.report.ignored + (statements text).countP fun line => isIgnored (tells line) := by
  rw [readText_eq source hread, ← map_fst_numbered]
  exact count_noteAll tells source (f := fun l => l.report.ignored) (ignored_note source) l _

theorem readText_total (l : Loading) (text : String) :
    (l.readText read source text).report.total = l.report.total + (statements text).length := by
  rw [readText_eq source hread, ← map_fst_numbered]
  have hcount := count_noteAll tells source (f := fun l => l.report.total) (p := fun _ => true)
    (total_note source) l (numbered text)
  rw [hcount, List.countP_true]

end

/-! ## Whole texts -/

theorem length_statements (text : String) :
    (statements text).length = (Text.lines text).countP fun raw => isStatement (Text.trim raw) := by
  rw [statements, ← List.countP_eq_length_filter, List.countP_map]
  rfl

/-- What a load does line by line, when it reads each line with `read` and the entries of a line are
what `tells` gives. -/
structure ByLine (load : Loading → String → String → Loading) (read : String → LineReader Bool)
    (tells : String → Except LineError (List Renamed)) : Prop where
  /-- Whatever the table, the line puts in its entries and answers whether it has any. -/
  reads : ∀ (line : String) (t : RenameTable),
    (read line).run t = ((tells line).map namesAny, t.insertAll (entriesOf (tells line)))
  /-- A line that is refused leaves the table exactly as it was. -/
  atomic : ∀ (line : String) (t t' : RenameTable) (reason : LineError),
    (read line).run t = (.error reason, t') → t' = t
  /-- At the end of a text, such a line leaves the table as the lines before it made it. -/
  refused : ∀ (l : Loading) (source before line : String), '\n' ∉ line.toList →
    (∃ t t' reason, (read (Text.trim line)).run t = (.error reason, t')) →
    (load l source (before ++ "\n" ++ line)).table = (load l source before).table
  /-- Every statement is accepted, ignored or skipped. -/
  counted : ∀ (l : Loading) (source text : String),
    (load l source text).report.accepted + (load l source text).report.ignored +
        (load l source text).report.skipped.length =
      l.report.accepted + l.report.ignored + l.report.skipped.length +
        (Text.lines text).countP fun raw => isStatement (Text.trim raw)
  /-- The skipped lines are those that are refused, in the order of their numbers. -/
  skipped : ∀ (l : Loading) (source text : String), ∃ new,
    (load l source text).report.skipped = l.report.skipped ++ new ∧
      new.Pairwise (fun a b => a.line < b.line) ∧
      ∀ s, s ∈ new ↔ s.source = source ∧ ∃ raw i, s.line = i + 1 ∧
        (Text.lines text)[i]? = some raw ∧ isStatement (Text.trim raw) = true ∧
        tells (Text.trim raw) = .error s.reason
  /-- No line writes a key twice. -/
  once : ∀ line, Distinct (tells line)
  /-- A key leads to what the last line that writes it says, or to what it led to before. -/
  last : ∀ (l : Loading) (source text : String) (k : TableKey),
    (load l source text).table.get? k =
      ((statements text).reverse.findSome? (written? tells k)).or (l.table.get? k)
  /-- Two texts may be joined. -/
  joined : ∀ (l : Loading) (source first second text more : String),
    (load (load l first text) second more).table =
        (load l source (text ++ "\n" ++ more)).table ∧
      (load (load l first text) second more).report.accepted =
        (load l source (text ++ "\n" ++ more)).report.accepted ∧
      (load (load l first text) second more).report.ignored =
        (load l source (text ++ "\n" ++ more)).report.ignored

theorem statements_of_line {line : String} (h : '\n' ∉ line.toList) :
    statements line = [Text.trim line].filter isStatement := by
  rw [statements_eq, List.splitOn_eq_singleton h]
  simp

theorem mem_refusals_iff {text : String} {s : SkippedLine} :
    s ∈ (numbered text).filterMap (refusal? tells source) ↔
      s.source = source ∧ ∃ raw i, s.line = i + 1 ∧ (Text.lines text)[i]? = some raw ∧
        isStatement (Text.trim raw) = true ∧ tells (Text.trim raw) = .error s.reason := by
  rw [List.mem_filterMap]
  constructor
  · rintro ⟨⟨line, n⟩, hline, hs⟩
    obtain ⟨raw, i, rfl, hraw, rfl, hstates⟩ := mem_numbered_iff.1 hline
    unfold refusal? at hs
    split at hs
    · rename_i reason hread
      cases hs
      exact ⟨rfl, raw, i, rfl, hraw, hstates, hread⟩
    · cases hs
  · rintro ⟨hsource, raw, i, hline, hraw, hstates, hread⟩
    refine ⟨(Text.trim raw, i + 1), mem_numbered_iff.2 ⟨raw, i, rfl, hraw, rfl, hstates⟩, ?_⟩
    cases s
    simp_all [refusal?]

theorem pairwise_refusals (text : String) :
    ((numbered text).filterMap (refusal? tells source)).Pairwise fun a b => a.line < b.line := by
  apply List.Pairwise.filterMap _ _ (pairwise_numbered text)
  intro a b hlt s hs t ht
  have hnumber : ∀ (line : String × Nat) (s : SkippedLine),
      refusal? tells source line = some s → s.line = line.2 := by
    intro line s hs
    unfold refusal? at hs
    split at hs
    · cases hs
      rfl
    · cases hs
  rw [hnumber a s hs, hnumber b t ht]
  exact hlt

/-- A refusal is one of the line, whatever the table. -/
theorem refused_iff {line : LineReader Bool} {said : Except LineError (List Renamed)}
    (h : Reads namesAny line said) {t t' : RenameTable} {reason : LineError} :
    line.run t = (.error reason, t') ↔ said = .error reason ∧ t' = t := by
  rw [h t]
  cases said with
  | error e =>
    constructor
    · rintro ⟨⟩
      exact ⟨rfl, rfl⟩
    · rintro ⟨⟨⟩, rfl⟩
      rfl
  | ok entries => exact ⟨nofun, nofun⟩

theorem byLine_readText {read : String → LineReader Bool}
    {tells : String → Except LineError (List Renamed)}
    (hread : ∀ line, Reads namesAny (read line) (tells line))
    (honce : ∀ line, Distinct (tells line)) : ByLine (readText read) read tells where
  reads := hread
  atomic := by
    intro line t t' reason hrun
    exact ((refused_iff (hread line)).1 hrun).2
  refused := by
    rintro l source before line hline ⟨t, t', reason, hrun⟩
    have hreason := ((refused_iff (hread _)).1 hrun).1
    have hentries : ([Text.trim line].filter isStatement).flatMap
        (fun line => entriesOf (tells line)) = [] := by
      rw [List.flatMap_eq_nil_iff]
      intro statement hmem
      rw [List.mem_singleton.1 (List.mem_filter.1 hmem).1, hreason]
      rfl
    rw [readText_table source hread, readText_table source hread, statements_append,
      List.flatMap_append, statements_of_line hline, hentries, List.append_nil]
  counted := by
    intro l source text
    rw [← length_statements]
    exact readText_total source hread l text
  skipped := by
    intro l source text
    refine ⟨(numbered text).filterMap (refusal? tells source), ?_,
      pairwise_refusals tells source text, fun s => mem_refusals_iff tells source⟩
    rw [readText_eq source hread, skipped_noteAll]
  once := honce
  last := by
    intro l source text k
    rw [readText_eq source hread, get?_noteAll source honce, map_fst_numbered]
  joined := by
    intro l source first second text more
    refine ⟨?_, ?_, ?_⟩
    · simp only [readText_table _ hread, statements_append, List.flatMap_append, insertAll_append]
    · simp only [readText_accepted _ hread, statements_append, List.countP_append]
      omega
    · simp only [readText_ignored _ hread, statements_append, List.countP_append]
      omega

/-- Both kinds of mapping texts are loaded line by line: what a line has put in before it is refused
is nothing, and lines, files and joined texts add up. -/
theorem byLine_primary_secondary :
    ByLine primary primaryLine primaryEntries ∧ ByLine secondary readSecondary secondaryEntries :=
  ⟨byLine_readText reads_primaryLine fun line => (single_primaryEntries line).distinct,
    byLine_readText reads_secondary distinct_secondaryEntries⟩

/-- A line that names two parameters, one that names none, one that is refused for its index after
its method was accepted, a comment, and a line that names the second parameter again. -/
def mixedLines : String :=
  "a/B.f(II)V=|x,y\na/B.f(II)V=|\na.B.f(II)V one z\n# again\na.B.f(II)V 1 w"

theorem numbered_mixedLines :
    numbered mixedLines =
      [("a/B.f(II)V=|x,y", 1), ("a/B.f(II)V=|", 2), ("a.B.f(II)V one z", 3),
        ("a.B.f(II)V 1 w", 5)] := by
  decide +kernel

/-- The refused line leaves no trace in the table, the line that names nothing is counted apart, and
the last line decides the name of the second parameter. -/
theorem secondary_mixedLines :
    (secondary {} "names" mixedLines).report = ⟨2, 1, [⟨"names", 3, .badIndex "one"⟩]⟩ ∧
      (∀ t, (readSecondary "a.B.f(II)V one z").run t = (.error (.badIndex "one"), t)) ∧
      (secondary {} "names" mixedLines).table.get? (.parameter "a.B.f(II)V" 0) = some "x" ∧
      (secondary {} "names" mixedLines).table.get? (.parameter "a.B.f(II)V" 1) = some "w" := by
  have htwo : secondaryEntries "a/B.f(II)V=|x,y" =
      .ok [.parameter "a.B.f(II)V" 0 "x", .parameter "a.B.f(II)V" 1 "y"] := by decide +kernel
  have hnone : secondaryEntries "a/B.f(II)V=|" = .ok [] := by decide +kernel
  have hindex : secondaryEntries "a.B.f(II)V one z" = .error (.badIndex "one") := by decide +kernel
  have hagain : secondaryEntries "a.B.f(II)V 1 w" = .ok [.parameter "a.B.f(II)V" 1 "w"] := by
    decide +kernel
  have hlast := byLine_primary_secondary.2.last {} "names" mixedLines
  rw [← map_fst_numbered, numbered_mixedLines] at hlast
  refine ⟨?_, fun t => ?_, ?_, ?_⟩
  · rw [secondary, readText_eq _ reads_secondary, numbered_mixedLines]
    simp only [noteAll, List.foldl_cons, List.foldl_nil, htwo, hnone, hindex, hagain]
    rfl
  · rw [byLine_primary_secondary.2.reads, hindex]
    rfl
  · rw [hlast]
    simp [written?, entriesOf, htwo, hnone, hindex, hagain, Renamed.key, Renamed.newName]
  · rw [hlast]
    simp [written?, entriesOf, hagain, Renamed.key, Renamed.newName]

end RenameTable.Loading

end Renaming
