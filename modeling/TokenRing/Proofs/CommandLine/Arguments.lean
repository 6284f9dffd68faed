import TokenRing.CommandLine.Arguments
import TokenRing.Proofs.Traversal

/-!
# Writing arguments

Whatever the program can be asked for can be written in arguments, and in several ways: the options
in any order, each in one of its spellings, and the operands of the command as they are or behind
two hyphens. All of these are read as the same.
-/

namespace TokenRing

namespace CommandLine

/-! ### Names -/

def CommandName.text : CommandName → String
  | ring => "ring"
  | keyspaces => "keyspaces"
  | replicas => "replicas"
  | route => "route"

theorem CommandName.ofArgument?_text (name : CommandName) : ofArgument? name.text = some name := by
  cases name <;> rfl

def OptionName.letter : OptionName → Char
  | topology => 't'
  | partitioner => 'p'

def OptionName.text : OptionName → String
  | topology => "topology"
  | partitioner => "partitioner"

end CommandLine

open CommandLine

def Partitioner.argument : Partitioner → String
  | murmur3 => "murmur3"
  | random => "random"
  | byteOrdered => "byte-ordered"

theorem Partitioner.ofArgument?_argument (p : Partitioner) : ofArgument? p.argument = some p := by
  cases p <;> rfl

namespace Command

def name : Command → CommandName
  | ring => .ring
  | keyspaces => .keyspaces
  | replicas _ _ => .replicas
  | route _ _ => .route

def operands : Command → List String
  | ring | keyspaces => []
  | replicas keyspace _ => [keyspace]
  | route keyspace key => [keyspace, key]

def json : Command → Bool
  | replicas _ json => json
  | ring | keyspaces | route _ _ => false

def flags (c : Command) : List String :=
  if c.json then ["--json"] else []

end Command

namespace CommandLine

/-- Whether a text begins like no option. The empty text does not. -/
def BeginsPlain (text : String) : Prop :=
  text.toList.head? ≠ some '-'

/-- Whether a text can be the value of an option in each spelling. -/
def IsValue (text : String) : Prop :=
  ∃ c, text.toList.head? = some c ∧ c ≠ '-' ∧ c ≠ '='

/-! ### Spellings -/

/-- The arguments that spell an option with its value. Flags may be bundled in front of it. -/
inductive OptionName.Spells (name : OptionName) (value : String) :
    (flags : List Char) → List String → Prop
  | attached (flags : List Char) :
    Spells name value flags [String.ofList ('-' :: flags ++ name.letter :: value.toList)]
  | behindEquals (flags : List Char) :
    Spells name value flags [String.ofList ('-' :: flags ++ name.letter :: '=' :: value.toList)]
  | apart (flags : List Char) :
    Spells name value flags [String.ofList ('-' :: flags ++ [name.letter]), value]
  | long : Spells name value [] ["--" ++ name.text, value]
  | longBehindEquals : Spells name value [] ["--" ++ name.text ++ "=" ++ value]

inductive Options.Gives (o : Options) : OptionName → String → Options → Prop
  | topology (path : String) (h : o.topology = none) :
    Gives o .topology path { o with topology := some path }
  | partitioner (p : Partitioner) (h : o.partitioner = none) :
    Gives o .partitioner p.argument { o with partitioner := some p }

inductive Options.Written : Options → List String → Prop
  | nil : Written {} []
  | verbose {o : Options} {arguments : List String} {flag : String} (h : Written o arguments)
    (hnew : o.verbose = false) (hflag : flag = "-v" ∨ flag = "--verbose") :
    Written { o with verbose := true } (arguments ++ [flag])
  | option {o o' : Options} {arguments spelling : List String} {name : OptionName} {value : String}
    (h : Written o arguments) (hgives : o.Gives name value o')
    (hspells : name.Spells value [] spelling) : Written o' (arguments ++ spelling)
  | bundled {o o' : Options} {arguments spelling : List String} {name : OptionName} {value : String}
    (h : Written o arguments) (hnew : o.verbose = false)
    (hgives : { o with verbose := true }.Gives name value o')
    (hspells : name.Spells value ['v'] spelling) : Written o' (arguments ++ spelling)

end CommandLine

/-- The arguments that write a command. Operands that begin like options need two hyphens. -/
inductive Command.Written (c : Command) : List String → Prop
  | ended : Written c (c.name.text :: (c.flags ++ "--" :: c.operands))
  | flagsFirst (h : ∀ text ∈ c.operands, BeginsPlain text) :
    Written c (c.name.text :: (c.flags ++ c.operands))
  | flagsLast (h : ∀ text ∈ c.operands, BeginsPlain text) :
    Written c (c.name.text :: (c.operands ++ c.flags))

def Command.WrittenWith (c : Command) (topology : String) (partitioner : Option Partitioner)
    (verbose : Bool) (arguments : List String) : Prop :=
  ∃ options command, Options.Written { topology := some topology, partitioner, verbose } options ∧
    c.Written command ∧ arguments = options ++ command

namespace CommandLine

/-! ### Forms -/

theorem Form.of_cluster {letters : List Char} (h : ∃ c, letters.head? = some c ∧ c ≠ '-') :
    of (String.ofList ('-' :: letters)) = .cluster letters := by
  obtain ⟨letter, hhead, hne⟩ := h
  obtain ⟨letters, rfl⟩ := List.head?_eq_some_iff.1 hhead
  unfold of
  rw [String.toList_ofList]
  split
  · next heq => simp_all
  · next heq => simp_all
  · next heq => simp_all
  · next hcluster => exact absurd rfl (hcluster _ _)

theorem Form.of_plain {text : String} (h : BeginsPlain text) : of text = .plain := by
  unfold of BeginsPlain at *
  split
  · next heq => simp [heq] at h
  · next heq => simp [heq] at h
  · next heq => simp [heq] at h
  · rfl

theorem Form.of_commandName (name : CommandName) : of name.text = .plain := by
  cases name <;> decide

theorem Form.of_long (name : OptionName) :
    of ("--" ++ name.text) = .long name.text.toList none := by
  cases name <;> decide

/-- The first equals sign ends the name, so the value may have more of them. -/
theorem Form.of_longBehindEquals (name : OptionName) (value : String) :
    of ("--" ++ name.text ++ "=" ++ value) = .long name.text.toList (some value.toList) := by
  have htext : ("--" ++ name.text ++ "=" ++ value).toList =
      '-' :: '-' :: (name.text.toList ++ '=' :: value.toList) := by
    simp
  unfold of
  rw [htext]
  cases name <;> rfl

theorem IsValue.beginsPlain {text : String} (h : IsValue text) : BeginsPlain text := by
  obtain ⟨c, hc, hne, -⟩ := h
  rw [BeginsPlain, hc]
  simpa using hne

theorem isValue_argument (p : Partitioner) : IsValue p.argument := by
  cases p
  · exact ⟨'m', by decide⟩
  · exact ⟨'r', by decide⟩
  · exact ⟨'b', by decide⟩

/-! ### Options -/

namespace Options

/-- What options amount to once the pending one is set. -/
structure SettlesTo (o p : Options) : Prop where
  settle_eq : o.settle = .ok p
  pending_eq : p.pending = none

/-- Arguments that are read as options, whatever follows them. -/
def Takes (o : Options) (arguments : List String) (o' : Options) : Prop :=
  ∀ rest, readArguments o (arguments ++ rest) = readArguments o' rest

variable {o o' p p' : Options} {name : OptionName} {value : String} {arguments : List String}

theorem settlesTo_self (h : o.pending = none) : o.SettlesTo o := by
  refine ⟨?_, h⟩
  rw [settle, h]

theorem SettlesTo.verbose (h : o.SettlesTo p) :
    SettlesTo { p with verbose := true } { p with verbose := true } :=
  settlesTo_self h.pending_eq

theorem Gives.pending_eq (h : p.Gives name value p') : p'.pending = p.pending := by
  cases h <;> rfl

/-- An option that is given for the first time is set to its value. -/
theorem Gives.set_eq (h : p.Gives name value p') (hvalue : IsValue value) :
    p.set name value = .ok p' := by
  cases h with
  | topology path hnone =>
    obtain ⟨c, hc, -⟩ := hvalue
    have hne : value.isEmpty = false := by
      rw [Bool.eq_false_iff, ne_eq, String.isEmpty_iff]
      rintro rfl
      simp at hc
    simp [Options.set, hnone, hne]
  | partitioner q hnone =>
    simp [Options.set, hnone, Partitioner.ofArgument?_argument]

theorem Gives.settlesTo (h : p.Gives name value p') (hvalue : IsValue value)
    (hpending : p.pending = none) :
    SettlesTo { p with pending := some (name, some value) } p' := by
  refine ⟨?_, h.pending_eq.trans hpending⟩
  have hp : { p with pending := none } = p := by rw [← hpending]
  show Options.set { p with pending := none } name value = .ok p'
  rw [hp, h.set_eq hvalue]

/-! ### One argument -/

theorem SettlesTo.setVerbose (h : o.SettlesTo p) (hnew : p.verbose = false) :
    o.setVerbose = .ok { p with verbose := true } := by
  refine Except.bind_eq_ok_iff.2 ⟨p, h.settle_eq, ?_⟩
  rw [hnew]
  rfl

theorem SettlesTo.await (h : o.SettlesTo p) (name : OptionName) :
    o.await name = .ok { p with pending := some (name, none) } := by
  exact Except.bind_eq_ok_iff.2 ⟨p, h.settle_eq, rfl⟩

theorem SettlesTo.attach (h : o.SettlesTo p) (hgives : p.Gives name value p')
    (hvalue : IsValue value) : o.attach name value.toList = .ok p' := by
  refine Except.bind_eq_ok_iff.2 ⟨p, h.settle_eq, ?_⟩
  rw [String.ofList_toList, hgives.set_eq hvalue]

/-- A value follows its letter at once or behind an equals sign. -/
theorem SettlesTo.readShort (h : o.SettlesTo p) (hgives : p.Gives name value p')
    (hvalue : IsValue value) :
    o.readShort name value.toList = .ok p' ∧ o.readShort name ('=' :: value.toList) = .ok p' := by
  refine ⟨?_, h.attach hgives hvalue⟩
  have hattach := h.attach hgives hvalue
  obtain ⟨c, hc, -, hne⟩ := hvalue
  obtain ⟨text, htext⟩ := List.head?_eq_some_iff.1 hc
  rw [htext] at hattach ⊢
  unfold Options.readShort
  split
  · next heq => cases heq
  · next heq => exact absurd (List.cons.inj heq).1 hne
  · exact hattach

/-- A letter that has a value takes the rest of the cluster. -/
theorem readCluster_letter (o : Options) (name : OptionName) (text : List Char) :
    o.readCluster (name.letter :: text) = o.readShort name text := by
  cases name <;> rfl

/-- The flag takes one letter, and the rest of the cluster is read on. -/
theorem SettlesTo.readCluster_verbose (h : o.SettlesTo p) (hnew : p.verbose = false)
    (letters : List Char) :
    o.readCluster ('v' :: letters) = readCluster { p with verbose := true } letters := by
  rw [readCluster, h.setVerbose hnew]
  rfl

theorem readLong_text (o : Options) (name : OptionName) (given : Option (List Char)) :
    o.readLong name.text.toList given = o.readNamed name given := by
  cases name <;> rfl

theorem readArguments_cluster {argument : String} {letters : List Char}
    (hform : Form.of argument = .cluster letters) (o : Options) (rest : List String) :
    readArguments o (argument :: rest) = o.readCluster letters >>= (readArguments · rest) := by
  rw [readArguments.eq_def]
  dsimp only
  rw [hform]

theorem readArguments_long {argument : String} {text : List Char} {given : Option (List Char)}
    (hform : Form.of argument = .long text given) (o : Options) (rest : List String) :
    readArguments o (argument :: rest) = o.readLong text given >>= (readArguments · rest) := by
  rw [readArguments.eq_def]
  dsimp only
  rw [hform]

theorem takes_cluster {letters : List Char} (hhead : ∃ c, letters.head? = some c ∧ c ≠ '-')
    (h : o.readCluster letters = .ok o') : o.Takes [String.ofList ('-' :: letters)] o' := by
  intro rest
  rw [List.singleton_append, readArguments_cluster (Form.of_cluster hhead), h]
  rfl

theorem takes_long {argument : String} {text : List Char} {given : Option (List Char)}
    (hform : Form.of argument = .long text given) (h : o.readLong text given = .ok o') :
    o.Takes [argument] o' := by
  intro rest
  rw [List.singleton_append, readArguments_long hform, h]
  rfl

/-- Arguments are taken part by part. -/
theorem Takes.append {o'' : Options} {arguments' : List String} (h : o.Takes arguments o')
    (h' : o'.Takes arguments' o'') : o.Takes (arguments ++ arguments') o'' := by
  intro rest
  rw [List.append_assoc, h, h']

/-- The argument behind an option without a value is its value, even if it is a command's name. -/
theorem exists_takes_apart {argument : String} (hgives : p.Gives name value p')
    (hvalue : IsValue value) (hpending : p.pending = none)
    (h : o.Takes [argument] { p with pending := some (name, none) }) :
    ∃ o', o.Takes [argument, value] o' ∧ o'.SettlesTo p' := by
  refine ⟨_, h.append fun rest => ?_, hgives.settlesTo hvalue hpending⟩
  rw [List.singleton_append, readArguments.eq_def]
  dsimp only
  rw [Form.of_plain hvalue.beginsPlain]

/-! ### Spellings -/

/-- Each spelling of an option with its value is taken, whether its value is set or pending then. -/
theorem exists_takes_of_spells {spelling : List String} (h : o.SettlesTo p)
    (hspells : name.Spells value [] spelling) (hgives : p.Gives name value p')
    (hvalue : IsValue value) : ∃ o', o.Takes spelling o' ∧ o'.SettlesTo p' := by
  have hletter : name.letter ≠ '-' := by cases name <;> decide
  have hshort := h.readShort hgives hvalue
  have hself : p'.SettlesTo p' := settlesTo_self (hgives.pending_eq.trans h.pending_eq)
  -- A value in the same argument is set at once, and one in the next argument is pending till then.
  cases hspells with
  | attached =>
    refine ⟨p', takes_cluster ⟨_, rfl, hletter⟩ ?_, hself⟩
    exact (readCluster_letter o name _).trans hshort.1
  | behindEquals =>
    refine ⟨p', takes_cluster ⟨_, rfl, hletter⟩ ?_, hself⟩
    exact (readCluster_letter o name _).trans hshort.2
  | apart =>
    apply exists_takes_apart hgives hvalue h.pending_eq
    refine takes_cluster ⟨_, rfl, hletter⟩ ?_
    exact (readCluster_letter o name []).trans (h.await name)
  | long =>
    apply exists_takes_apart hgives hvalue h.pending_eq
    refine takes_long (Form.of_long name) ?_
    exact (readLong_text o name none).trans (h.await name)
  | longBehindEquals =>
    refine ⟨p', takes_long (Form.of_longBehindEquals name value) ?_, hself⟩
    rw [readLong_text]
    exact h.attach hgives hvalue

theorem SettlesTo.takes_verbose {flag : String} (h : o.SettlesTo p) (hnew : p.verbose = false)
    (hflag : flag = "-v" ∨ flag = "--verbose") : o.Takes [flag] { p with verbose := true } := by
  rcases hflag with rfl | rfl
  · have hread : o.readCluster ['v'] = .ok { p with verbose := true } :=
      h.readCluster_verbose hnew []
    exact takes_cluster ⟨'v', rfl, by decide⟩ hread
  · have hform : Form.of "--verbose" = .long "verbose".toList none := by decide
    exact takes_long hform (h.setVerbose hnew)

/-- A flag in front of letters is read like one in an argument of its own. -/
theorem SettlesTo.readArguments_bundled {letters : List Char} (h : o.SettlesTo p)
    (hnew : p.verbose = false) (hhead : ∃ c, letters.head? = some c ∧ c ≠ '-')
    (rest : List String) :
    readArguments o (String.ofList ('-' :: 'v' :: letters) :: rest) =
      readArguments { p with verbose := true } (String.ofList ('-' :: letters) :: rest) := by
  rw [readArguments_cluster (Form.of_cluster ⟨'v', rfl, by decide⟩),
    readArguments_cluster (Form.of_cluster hhead), h.readCluster_verbose hnew]

end Options

/-- A spelling with the flag in front is the flag and a spelling without it. -/
theorem OptionName.Spells.exists_bundled {name : OptionName} {value : String}
    {spelling : List String} (h : name.Spells value ['v'] spelling) :
    ∃ letters arguments, spelling = String.ofList ('-' :: 'v' :: letters) :: arguments ∧
      name.Spells value [] (String.ofList ('-' :: letters) :: arguments) ∧
      ∃ c, letters.head? = some c ∧ c ≠ '-' := by
  have hletter : name.letter ≠ '-' := by cases name <;> decide
  cases h with
  | attached => exact ⟨_, [], rfl, .attached [], name.letter, rfl, hletter⟩
  | behindEquals => exact ⟨_, [], rfl, .behindEquals [], name.letter, rfl, hletter⟩
  | apart => exact ⟨_, [value], rfl, .apart [], name.letter, rfl, hletter⟩

namespace Options

variable {o p : Options} {arguments : List String}

/-- An option that is given has a value that its spellings allow. -/
theorem Gives.isValue {p' : Options} {name : OptionName} {value : String}
    (h : p.Gives name value p') (hpath : ∀ path ∈ p'.topology, IsValue path) : IsValue value := by
  cases h with
  | topology _ _ => exact hpath value rfl
  | partitioner q _ => exact isValue_argument q

theorem Gives.topology_subset {p' : Options} {name : OptionName} {value : String}
    (h : p.Gives name value p') {path : String} (hpath : path ∈ p.topology) :
    path ∈ p'.topology := by
  cases h with
  | topology _ hnone => simp [hnone] at hpath
  | partitioner _ _ => exact hpath

/-- However options are written, they are read as what they amount to. -/
theorem Written.exists_takes (h : p.Written arguments) (hpath : ∀ path ∈ p.topology, IsValue path) :
    ∃ o, Takes {} arguments o ∧ o.SettlesTo p := by
  -- Along the writing: what was read so far settles to what was written so far.
  induction h with
  | nil => exact ⟨{}, fun _ => rfl, settlesTo_self rfl⟩
  | verbose hwritten hnew hflag ih =>
    obtain ⟨o, htakes, hsettles⟩ := ih hpath
    exact ⟨_, htakes.append (hsettles.takes_verbose hnew hflag), hsettles.verbose⟩
  | option hwritten hgives hspells ih =>
    obtain ⟨o, htakes, hsettles⟩ := ih fun path hmem => hpath path (hgives.topology_subset hmem)
    obtain ⟨o', htakes', hsettles'⟩ :=
      exists_takes_of_spells hsettles hspells hgives (hgives.isValue hpath)
    exact ⟨o', htakes.append htakes', hsettles'⟩
  | bundled hwritten hnew hgives hspells ih =>
    obtain ⟨o, htakes, hsettles⟩ := ih fun path hmem => hpath path (hgives.topology_subset hmem)
    obtain ⟨letters, behind, rfl, hspells', hhead⟩ := hspells.exists_bundled
    obtain ⟨o', htakes', hsettles'⟩ :=
      exists_takes_of_spells hsettles.verbose hspells' hgives (hgives.isValue hpath)
    refine ⟨o', htakes.append fun rest => ?_, hsettles'⟩
    rw [List.cons_append, hsettles.readArguments_bundled hnew hhead]
    exact htakes' rest

end Options

/-! ### Operands -/

namespace Operands

/-- Arguments that are read as operands and flags of a command. -/
def Takes (o : Operands) (name : CommandName) (arguments : List String) (o' : Operands) : Prop :=
  arguments.foldlM (fun o argument => read o name argument) o = .ok o'

variable {o o' o'' : Operands} {name : CommandName} {arguments arguments' : List String}

theorem takes_nil : o.Takes name [] o :=
  rfl

theorem Takes.append (h : o.Takes name arguments o') (h' : o'.Takes name arguments' o'') :
    o.Takes name (arguments ++ arguments') o'' := by
  unfold Takes at *
  rw [List.foldlM_append, h]
  exact h'

theorem takes_singleton {argument : String} (h : o.read name argument = .ok o') :
    o.Takes name [argument] o' := by
  unfold Takes
  rw [List.foldlM_cons, h]
  rfl

/-- Operands are told from options by how they begin, until two hyphens end the options. -/
theorem read_text {text : String} (h : o.ended = true ∨ BeginsPlain text) :
    o.read name text = o.push name text := by
  unfold read
  rcases h with hended | hplain
  · rw [if_pos hended]
  · rw [Form.of_plain hplain]
    split <;> rfl

/-- As many operands as the command has are taken in order. -/
theorem takes_texts {texts : List String} (h : o.ended = true ∨ ∀ text ∈ texts, BeginsPlain text)
    (hlen : o.texts.length + texts.length ≤ name.arity) :
    o.Takes name texts { o with texts := o.texts ++ texts } := by
  induction texts generalizing o with
  | nil =>
    rw [List.append_nil]
    exact takes_nil
  | cons text texts ih =>
    rw [List.length_cons] at hlen
    have hpush : o.read name text = .ok { o with texts := o.texts ++ [text] } := by
      rw [read_text (h.imp_right fun hall => hall text List.mem_cons_self), push,
        if_pos (by omega)]
    have hlen' : (o.texts ++ [text]).length + texts.length ≤ name.arity := by
      rw [List.length_append, List.length_singleton]
      omega
    have hrest : Takes { o with texts := o.texts ++ [text] } name texts
        { o with texts := o.texts ++ [text] ++ texts } :=
      ih (h.imp_right fun hall other hother => hall other (List.mem_cons_of_mem text hother)) hlen'
    rw [List.append_assoc] at hrest
    exact (takes_singleton hpush).append hrest

theorem takes_flags (c : Command) (hopen : o.ended = false) (hnew : o.json = false) :
    o.Takes c.name c.flags { o with json := c.json } := by
  unfold Command.flags
  cases hjson : c.json with
  | false =>
    have hsame : { o with json := false } = o := by rw [← hnew]
    rw [hsame]
    exact takes_nil
  | true =>
    have hname : c.name = .replicas := by
      cases c with
      | replicas => rfl
      | _ => cases hjson
    have hform : Form.of "--json" = .long "json".toList none := by decide
    rw [hname, if_pos rfl]
    apply takes_singleton
    rw [read, if_neg (by simp [hopen]), hform]
    simp [readLong, CommandName.hasJson, hnew]

theorem takes_ending (hopen : o.ended = false) : o.Takes name ["--"] { o with ended := true } := by
  have hform : Form.of "--" = .ending := by decide
  apply takes_singleton
  rw [read, if_neg (by simp [hopen]), hform]

end Operands

theorem length_operands (c : Command) : c.operands.length = c.name.arity := by
  cases c <;> rfl

/-- A command whose operands are all there is read. -/
theorem read_of_takes {c : Command} {arguments : List String} {ended : Bool}
    (h : Operands.Takes {} c.name arguments { texts := c.operands, json := c.json, ended }) :
    c.name.read arguments = .ok c := by
  unfold CommandName.read
  rw [h]
  cases c <;> rfl

/-- However a command is written, its name comes first, and it is read from what follows. -/
theorem exists_read_of_written {c : Command} {arguments : List String} (h : c.Written arguments) :
    ∃ rest, arguments = c.name.text :: rest ∧ c.name.read rest = .ok c := by
  have hlen : ([] : List String).length + c.operands.length ≤ c.name.arity := by
    simpa using Nat.le_of_eq (length_operands c)
  cases h with
  | ended =>
    have hflags := Operands.takes_flags (o := {}) c rfl rfl
    exact ⟨_, rfl, read_of_takes (hflags.append
      ((Operands.takes_ending rfl).append (Operands.takes_texts (.inl rfl) hlen)))⟩
  | flagsFirst hplain =>
    have hflags := Operands.takes_flags (o := {}) c rfl rfl
    exact ⟨_, rfl, read_of_takes (hflags.append (Operands.takes_texts (.inr hplain) hlen))⟩
  | flagsLast hplain =>
    have htexts := Operands.takes_texts (o := {}) (.inr hplain) hlen
    exact ⟨_, rfl, read_of_takes (htexts.append (Operands.takes_flags c rfl rfl))⟩

/-- With the topology given, what follows the name of the command completes the configuration. -/
theorem readArguments_command {o p : Options} (h : o.SettlesTo p) {topology : String}
    (htopology : p.topology = some topology) {c : Command} {rest : List String}
    (hread : c.name.read rest = .ok c) :
    readArguments o (c.name.text :: rest) =
      .ok ⟨topology, p.partitioner.getD .murmur3, p.verbose, c⟩ := by
  have hcommand : readCommand o c.name rest =
      .ok ⟨topology, p.partitioner.getD .murmur3, p.verbose, c⟩ := by
    refine Except.bind_eq_ok_iff.2 ⟨c, hread, Except.bind_eq_ok_iff.2 ⟨p, h.settle_eq, ?_⟩⟩
    rw [htopology]
    rfl
  rw [readArguments.eq_def]
  dsimp only
  rw [Form.of_commandName]
  dsimp only
  split
  · -- An option that still waits for its value does not settle.
    next hpending =>
    have hsettle := h.settle_eq
    rw [Options.settle, hpending] at hsettle
    cases hsettle
  · rw [CommandName.ofArgument?_text]
    exact hcommand

end CommandLine

/-! ### Main result -/

/-- Everything that can be asked for can be written. -/
theorem exists_writtenWith (c : Command) (topology : String) (partitioner : Option Partitioner)
    (verbose : Bool) : ∃ arguments, c.WrittenWith topology partitioner verbose arguments := by
  have hpath : Options.Written { topology := some topology } ["--topology", topology] :=
    .option .nil (.topology topology rfl) .long
  have hpartitioner :
      ∃ arguments, Options.Written { topology := some topology, partitioner } arguments := by
    cases partitioner with
    | none => exact ⟨_, hpath⟩
    | some p => exact ⟨_, hpath.option (.partitioner p rfl) .long⟩
  obtain ⟨options, hoptions⟩ := hpartitioner
  cases verbose with
  | false => exact ⟨_, options, _, hoptions, .ended, rfl⟩
  | true => exact ⟨_, _, _, hoptions.verbose rfl (.inr rfl), .ended, rfl⟩

/-- Whatever can be asked for can be written, and however it is written, just this is read. Where no
partitioner is given it is `murmur3`. -/
theorem ofArguments_written {topology : String} (h : IsValue topology)
    (partitioner : Option Partitioner) (verbose : Bool) (c : Command) :
    (∃ arguments, c.WrittenWith topology partitioner verbose arguments) ∧
      ∀ arguments, c.WrittenWith topology partitioner verbose arguments →
        Invocation.ofArguments arguments =
          .ok ⟨topology, partitioner.getD .murmur3, verbose, c⟩ := by
  refine ⟨exists_writtenWith c topology partitioner verbose, ?_⟩
  rintro _ ⟨options, command, hoptions, hcommand, rfl⟩
  have hpath : ∀ path ∈ some topology, IsValue path := by
    rintro path hmem
    rw [← Option.some.inj hmem]
    exact h
  obtain ⟨o, htakes, hsettles⟩ := hoptions.exists_takes hpath
  obtain ⟨rest, rfl, hread⟩ := exists_read_of_written hcommand
  rw [Invocation.ofArguments, htakes, readArguments_command hsettles rfl hread]

/-- The file has the name of a command, and the operands look like options. -/
theorem ofArguments_written_lookalikes :
    Invocation.ofArguments ["-vp=random", "-t", "ring", "route", "--", "--", "--json"] =
      .ok ⟨"ring", .random, true, .route "--" "--json"⟩ := by
  have hbundled : OptionName.partitioner.Spells "random" ['v'] ["-vp=random"] := .behindEquals ['v']
  have hpath : OptionName.topology.Spells "ring" [] ["-t", "ring"] := .apart []
  have hoptions : Options.Written
      { topology := some "ring", partitioner := some .random, verbose := true }
      ["-vp=random", "-t", "ring"] :=
    (Options.Written.nil.bundled rfl (.partitioner .random rfl) hbundled).option
      (.topology "ring" rfl) hpath
  have hvalue : IsValue "ring" := ⟨'r', by decide⟩
  exact (ofArguments_written hvalue (some .random) true (.route "--" "--json")).2 _
    ⟨_, _, hoptions, .ended, rfl⟩

end TokenRing
