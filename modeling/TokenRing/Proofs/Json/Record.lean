import TokenRing.Json.Record
import TokenRing.Proofs.Json.Reader

/-!
# Reading records

A record is read from a mapping of its members, in whatever order they are written. What the draft
holds is a function of the keys that have been read.
-/

namespace TokenRing.Json

variable {δ α β : Type} {isFirst : Bool} {more : List Element} {text : List Char}

/-! ### Keys -/

theorem opens_mapping (members : List (String × List Element)) : Opens (mapping members) :=
  ⟨_, _, rfl, by decide⟩

theorem nextKey_closed (htext : Spaced (.symbol '\x7d' :: more) text) :
    ∃ rest, nextKey isFirst text = .ok (.closed rest) ∧ Spaced more rest := by
  obtain ⟨rest, hskip, hrest⟩ := htext.exists_skipBlank_symbol
  refine ⟨rest, ?_, hrest⟩
  rw [nextKey, hskip]
  rfl

/-- In front of a member the reader goes over the comma and the opening quote of the key. -/
theorem nextKey_item {key : String}
    (htext : Spaced ((if isFirst then [] else [.symbol ',']) ++ (.text key :: more)) text) :
    ∃ body rest, nextKey isFirst text = .ok (.item (body ++ '"' :: rest)) ∧
      Spells key.toList body ∧ Spaced more rest := by
  cases isFirst with
  | true =>
    obtain ⟨body, rest, hskip, hbody, hrest⟩ := htext.exists_skipBlank_text
    refine ⟨body, rest, ?_, hbody, hrest⟩
    rw [nextKey, hskip]
    rfl
  | false =>
    obtain ⟨behind, hcomma, hbehind⟩ := htext.exists_skipBlank_symbol
    obtain ⟨body, rest, hskip, hbody, hrest⟩ := hbehind.exists_skipBlank_text
    refine ⟨body, rest, ?_, hbody, hrest⟩
    rw [nextKey, hcomma]
    simp [hskip]

theorem readColon_symbol (htext : Spaced (.symbol ':' :: more) text) :
    ∃ rest, readColon text = .ok rest ∧ Spaced more rest := by
  obtain ⟨rest, hskip, hrest⟩ := htext.exists_skipBlank_symbol
  refine ⟨rest, ?_, hrest⟩
  rw [readColon, hskip]
  rfl

/-! ### Members -/

namespace Record

/-- Whether a record has a field for a member, which the draft does not hold and reads, once the
draft is what `draft` makes of other keys. -/
def Takes (record : Record δ α) (draft : List String → δ) (m : String × List Element) : Prop :=
  ∀ read, m.1 ∉ read → ∃ field,
    record.fields.find? (fun f => f.name = m.1) = some field ∧
      field.isRead (draft read) = false ∧
      Reads (field.read (draft read)) m.2 (draft (m.1 :: read))

variable {record : Record δ α} {draft : List String → δ} {members : List (String × List Element)}

/-- A field takes its member if it is free in the draft and the value is read. -/
theorem takes_ofReader {name : String} {required : Bool} {get : δ → Option β} {set : δ → β → δ}
    {value : Reader β} {es : List Element} {b : β}
    (hfind : record.fields.find? (fun f => f.name = name) =
      some (.ofReader name required get set value))
    (hget : ∀ read, name ∉ read → get (draft read) = none)
    (hset : ∀ read, set (draft read) b = draft (name :: read)) (hreads : Reads value es b) :
    record.Takes draft (name, es) := by
  intro read hread
  refine ⟨_, hfind, ?_, ?_⟩
  · show (get (draft read)).isSome = false
    rw [hget read hread]
    rfl
  · show Reads _ es (draft (name :: read))
    rw [← hset]
    exact hreads.map (set (draft read))

/-- One member is read by reading its key, finding the field, and reading the value behind the
colon. -/
theorem readNamed_item {fuel : Nat} {d d' : δ} {key : String} {body front value rest : List Char}
    {field : Field δ} (hnext : nextKey isFirst text = .ok (.item (body ++ '"' :: front)))
    (hbody : Spells key.toList body)
    (hfind : record.fields.find? (fun f => f.name = key) = some field)
    (hisRead : field.isRead d = false) (hcolon : readColon front = .ok value)
    (hfield : field.read d value = .ok (d', rest)) :
    record.readNamed (fuel + 1) isFirst d text = record.readNamed fuel false d' rest := by
  have hkey : readLiteral true .between [] (body ++ '"' :: front) = .ok (key.toList, front) :=
    readLiteral_spells hbody [] front
  rw [readNamed, hnext]
  simp only [bind, Except.bind, hkey, String.toList_inj, hfind, hisRead, hcolon, hfield]
  rfl

/-- All members are read in order, and the draft then holds what they have for their keys. -/
theorem readNamed_listing (h : ∀ m ∈ members, record.Takes draft m)
    (hkeys : (members.map Prod.fst).Nodup) {read : List String}
    (hread : ∀ m ∈ members, m.1 ∉ read) {fuel : Nat} (hfuel : members.length < fuel)
    (htext : Spaced (listing '\x7d' isFirst (members.map member) ++ more) text) :
    ∃ rest, record.readNamed fuel isFirst (draft read) text =
        .ok (draft ((members.map Prod.fst).reverse ++ read), rest) ∧ Spaced more rest := by
  -- On the members still to come, while the draft has those that were read and no other.
  induction members generalizing fuel isFirst text read with
  | nil =>
    obtain ⟨fuel, rfl⟩ := Nat.exists_eq_succ_of_ne_zero (Nat.ne_zero_of_lt hfuel)
    obtain ⟨rest, hnext, hrest⟩ := nextKey_closed htext
    refine ⟨rest, ?_, hrest⟩
    rw [readNamed, hnext]
    rfl
  | cons m members ih =>
    obtain ⟨fuel, rfl⟩ := Nat.exists_eq_succ_of_ne_zero (Nat.ne_zero_of_lt hfuel)
    rw [List.map_cons, listing, List.append_assoc, List.append_assoc] at htext
    obtain ⟨body, front, hnext, hbody, hfront⟩ := nextKey_item htext
    obtain ⟨value, hcolon, hvalue⟩ := readColon_symbol hfront
    obtain ⟨field, hfind, hisRead, hreads⟩ :=
      h m List.mem_cons_self read (hread m List.mem_cons_self)
    obtain ⟨behind, hfield, hbehind⟩ := hreads delimits_listing hvalue
    have htail : ∀ m' ∈ members, m'.1 ∉ m.1 :: read := by
      intro m' hm' hmem
      rcases List.mem_cons.1 hmem with heq | hmem
      · exact (List.nodup_cons.1 hkeys).1 (heq ▸ List.mem_map_of_mem hm')
      · exact hread m' (List.mem_cons_of_mem m hm') hmem
    obtain ⟨rest, hrec, hrest⟩ :=
      ih (fun m' hm' => h m' (List.mem_cons_of_mem m hm')) (List.nodup_cons.1 hkeys).2 htail
        (Nat.lt_of_succ_lt_succ hfuel) hbehind
    refine ⟨rest, ?_, hrest⟩
    rw [readNamed_item hnext hbody hfind hisRead hcolon hfield, hrec, List.map_cons,
      List.reverse_cons, List.append_assoc, List.singleton_append]

/-- A record is read from its members if each has a field and the draft of all of them is
complete. -/
theorem reads_mapping {a : α} (hblank : record.blank = draft [])
    (h : ∀ m ∈ members, record.Takes draft m) (hkeys : (members.map Prod.fst).Nodup)
    (hfinish : record.finish (draft (members.map Prod.fst).reverse) = .ok a) :
    Reads record.read (mapping members) a := by
  intro more text _ htext
  rw [mapping, List.cons_append] at htext
  obtain ⟨behind, hskip, hbehind⟩ := htext.exists_skipBlank_symbol
  have hfuel : members.length < behind.length + 1 := by
    rw [← List.length_map]
    refine length_lt_of_listing ?_ hbehind
    intro item hitem
    obtain ⟨m, -, rfl⟩ := List.mem_map.1 hitem
    exact List.cons_ne_nil _ _
  obtain ⟨rest, hread, hrest⟩ :=
    readNamed_listing h hkeys (fun _ _ => List.not_mem_nil) hfuel hbehind
  refine ⟨rest, ?_, hrest⟩
  rw [List.append_nil] at hread
  rw [read, hskip]
  simp only [bind, Except.bind, hblank, hread, hfinish]
  rfl

end Record

end TokenRing.Json
