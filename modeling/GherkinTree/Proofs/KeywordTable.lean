import GherkinTree.Options
import GherkinTree.Proofs.Bundled
import GherkinTree.Proofs.Tiling

/-!
Keyword tables of all dialects, those included that the library does not know. A table is built by
calls that each list spellings of one role. Of two entries for one keyword the earlier stands, and
every call sorts the table anew. The English table is written out, so that a document can be evaluated
with the table and not with its construction. Main statement: the lookup in a built table finds the
longest of the listed keywords that fit, and the first role that has it.
-/

namespace GherkinTree

theorem Role.rank_inj {a b : Role} : a.rank = b.rank ↔ a = b := by
  cases a <;> cases b <;> decide

namespace Spelling

/-- The entry `s` stands for the spelling `listed` of `role`: trailing spaces are cut off, an
asterisk of a step role goes to the role of its own, and a blank has to follow an asterisk and
every step keyword that was listed with a space behind it. -/
structure ListedAs (s : Spelling) (role : Role) (listed : Text) : Prop where
  nonempty : s.text ≠ []
  solid : s.text.getLast? ≠ some ' '
  spaces : ∃ n, listed = s.text ++ List.replicate n ' '
  role_eq : s.role = if role.isStep ∧ s.text = ['*'] then .wildcard else role
  separated_iff : s.separated = true ↔ role.isStep ∧ (s.text = ['*'] ∨ listed ≠ s.text)

/-- The entry `s` is a keyword at the start of `t` and may stand in front of `rest`. -/
structure FitsAt (s : Spelling) (t rest : Text) : Prop where
  append : t = s.text ++ rest
  colon : s.role.isStructural → rest.head? = some ':'
  blank : s.role.isStep → s.separated → ∀ c, rest.head? = some c → Text.isBlank c

/-- Two entries for one keyword: the role and the text are the same. -/
def Same (a b : Spelling) : Prop := a.role = b.role ∧ a.text = b.text

/-- Where `a` may stand in front of `b`: it is longer, or as long and of no later role. -/
def Leads (a b : Spelling) : Prop :=
  Text.width b.text < Text.width a.text ∨
    Text.width a.text = Text.width b.text ∧ a.role.rank ≤ b.role.rank

theorem rest?_eq_some_iff {s : Spelling} {t rest : Text} :
    s.rest? t = some rest ↔ s.FitsAt t rest := by
  have haccepts : s.accepts rest = true ↔ (s.role.isStructural → rest.head? = some ':') ∧
      (s.role.isStep → s.separated → ∀ c, rest.head? = some c → Text.isBlank c) := by
    unfold accepts Role.isStructural
    cases s.role.isStep <;> cases s.separated <;> simp [Option.all_eq_true]
  rw [rest?, Option.filter_eq_some_iff, Text.after?_eq_some_iff, haccepts]
  exact ⟨fun h => ⟨h.1, h.2.1, h.2.2⟩, fun h => ⟨h.append, h.colon, h.blank⟩⟩

/-- What is left of a text without the spaces at its end. -/
theorem dropWhile_reverse_eq_iff {c : Char} {listed t : Text} :
    (listed.reverse.dropWhile (· == c)).reverse = t ↔
      t.getLast? ≠ some c ∧ ∃ n, listed = t ++ List.replicate n c := by
  constructor
  · rintro rfl
    refine ⟨fun h => ?_, (listed.reverse.takeWhile (· == c)).length, ?_⟩
    · have hc := List.head?_dropWhile_not (· == c) listed.reverse
      rw [List.getLast?_reverse] at h
      simp [h] at hc
    · have hspaces : listed.reverse.takeWhile (· == c) =
          List.replicate (listed.reverse.takeWhile (· == c)).length c :=
        List.eq_replicate_iff.2 ⟨rfl, fun d hd => by simpa using List.mem_takeWhile_imp hd⟩
      rw [← List.reverse_inj, List.reverse_append, List.reverse_reverse, List.reverse_replicate,
        ← hspaces, List.takeWhile_append_dropWhile]
  · rintro ⟨hlast, n, rfl⟩
    have hstop : t.reverse.dropWhile (· == c) = t.reverse := by
      cases ht : t.reverse with
      | nil => rfl
      | cons d u =>
        have hd : d ≠ c := by rintro rfl; exact hlast (by rw [List.getLast?_eq_head?_reverse, ht]; rfl)
        rw [List.dropWhile_cons_of_neg (by simpa using hd)]
    rw [List.reverse_append, List.reverse_replicate,
      List.dropWhile_append_of_pos (fun d hd => by simp [List.eq_of_mem_replicate hd]), hstop,
      List.reverse_reverse]

theorem ofListed?_eq_some_iff {role : Role} {listed : Text} {s : Spelling} :
    ofListed? role listed = some s ↔ s.ListedAs role listed := by
  obtain ⟨t, ht⟩ : ∃ t, (listed.reverse.dropWhile (· == ' ')).reverse = t := ⟨_, rfl⟩
  obtain ⟨hlast, n, hn⟩ := dropWhile_reverse_eq_iff.1 ht
  have hlength : (t.length != listed.length) = decide (listed ≠ t) := by
    rw [hn]
    cases n <;> simp
  have hentry : ofListed? role listed = if t = [] then none else
      some ⟨if role.isStep ∧ t = ['*'] then .wildcard else role, t,
        decide (role.isStep ∧ (t = ['*'] ∨ listed ≠ t))⟩ := by
    unfold ofListed? Role.isStructural
    simp only [ht]
    cases role.isStep <;> by_cases hstar : t = ['*'] <;> by_cases hnil : t = [] <;>
      simp [hstar, hnil, hlength]
  have htext (h : s.ListedAs role listed) : s.text = t :=
    (dropWhile_reverse_eq_iff.2 ⟨h.solid, h.spaces⟩).symm.trans ht
  rw [hentry]
  constructor
  · intro h
    split at h
    · cases h
    · rename_i hnil
      cases h
      exact ⟨hnil, hlast, ⟨n, hn⟩, rfl, by simp⟩
  · intro h
    obtain ⟨r, u, b⟩ := s
    obtain rfl : u = t := htext h
    have hb := h.separated_iff
    rw [if_neg h.nonempty, ← h.role_eq]
    simp only [Option.some.injEq, Spelling.mk.injEq, true_and]
    rw [← Bool.coe_iff_coe, decide_eq_true_iff]
    exact hb.symm

theorem precedes_iff_leads {a b : Spelling} : precedes a b = true ↔ a.Leads b := by
  simp [precedes, Leads]

end Spelling

/-- Calls of the builder: each lists spellings of one role. -/
abbrev Calls := List (Role × List Text)

namespace Calls

/-- Every listed spelling with its role, in the order of the calls. -/
def listed (calls : Calls) : List (Role × Text) := calls.flatMap fun c => c.2.map (c.1, ·)

/-- The entry of the first listed spelling of a keyword. What is listed for the same keyword later
changes nothing. -/
def Registers (calls : Calls) (s : Spelling) : Prop :=
  ∃ before role spelling after, calls.listed = before ++ (role, spelling) :: after ∧
    s.ListedAs role spelling ∧
    ∀ p ∈ before, ∀ t : Spelling, t.ListedAs p.1 p.2 → ¬t.Same s

/-- The match `m` is a registered keyword of one of the roles that fits at the start of a text. -/
structure Offers (calls : Calls) (roles : List Role) (t : Text) (m : KeywordMatch) : Prop where
  entry : ∃ s, calls.Registers s ∧ s.FitsAt t m.rest ∧ s.role = m.role ∧ s.text = m.text
  mem : m.role ∈ roles

/-- The match `m` is on offer and no other outdoes it: it is as long as each of them, and of those
with its text its role is the first. -/
structure IsLongest (calls : Calls) (roles : List Role) (t : Text) (m : KeywordMatch) : Prop where
  offered : calls.Offers roles t m
  longest : ∀ x, calls.Offers roles t x → Text.width x.text ≤ Text.width m.text
  first : ∀ x, calls.Offers roles t x → x.text = m.text → m.role.rank ≤ x.role.rank

theorem Offers.append {calls : Calls} {roles : List Role} {t : Text} {m : KeywordMatch}
    (h : calls.Offers roles t m) : t = m.text ++ m.rest := by
  obtain ⟨s, -, hfits, -, htext⟩ := h.entry
  exact htext ▸ hfits.append

theorem Offers.nonempty {calls : Calls} {roles : List Role} {t : Text} {m : KeywordMatch}
    (h : calls.Offers roles t m) : m.text ≠ [] := by
  obtain ⟨s, ⟨_, _, _, _, -, hlisted, -⟩, -, -, htext⟩ := h.entry
  exact htext ▸ hlisted.nonempty

theorem Offers.takeBytes? {calls : Calls} {roles : List Role} {t : Text} {m : KeywordMatch}
    (h : calls.Offers roles t m) : Text.takeBytes? t (Text.width m.text) = some m.text :=
  Text.takeBytes?_eq_some_iff.2 ⟨⟨m.rest, h.append⟩, rfl⟩

/-- Two longest keywords of one text are the same. -/
theorem IsLongest.unique {calls : Calls} {roles : List Role} {t : Text} {m m' : KeywordMatch}
    (h : calls.IsLongest roles t m) (h' : calls.IsLongest roles t m') : m = m' := by
  have hwidth : Text.width m.text = Text.width m'.text :=
    Nat.le_antisymm (h'.longest m h.offered) (h.longest m' h'.offered)
  have htext : m.text = m'.text :=
    Option.some.inj (h.offered.takeBytes?.symm.trans (hwidth ▸ h'.offered.takeBytes?))
  have hrest : m.rest = m'.rest := by
    have happend := h.offered.append.symm.trans h'.offered.append
    rwa [htext, List.append_cancel_left_eq] at happend
  have hrole : m.role = m'.role := Role.rank_inj.1 <|
    Nat.le_antisymm (h.first m' h'.offered htext.symm) (h'.first m h.offered htext)
  cases m
  cases m'
  simp_all

end Calls

namespace Dialect

/-- What holds of every keyword table, whatever was listed. -/
structure Ordered (d : Dialect) : Prop where
  nonempty : ∀ s ∈ d.entries, s.text ≠ []
  distinct : d.entries.Pairwise fun a b => ¬a.Same b
  sorted : d.entries.Pairwise Spelling.Leads
  asterisk : ∀ s ∈ d.entries, s.role.isStep → s.text = ['*'] → s.role = .wildcard

/-- The dialect that the builder makes of a sequence of calls. -/
def built (code name native : String) (calls : Calls) : Dialect :=
  calls.foldl (fun d c => d.withSpellings c.1 c.2) (new code name native)

/-- The entry of a role for a text. -/
def lookup? (table : List Spelling) (role : Role) (text : Text) : Option Spelling :=
  table.find? fun s => s.role == role && s.text == text

theorem lookup?_append (a b : List Spelling) (role : Role) (text : Text) :
    lookup? (a ++ b) role text = (lookup? a role text).or (lookup? b role text) :=
  List.find?_append

theorem same_of_lookup? {table : List Spelling} {role : Role} {text : Text} {s : Spelling}
    (h : lookup? table role text = some s) : s.role = role ∧ s.text = text := by
  simpa using List.find?_some h

theorem lookup?_eq_none_iff {table : List Spelling} {role : Role} {text : Text} :
    lookup? table role text = none ↔ ∀ s ∈ table, ¬(s.role = role ∧ s.text = text) := by
  simp [lookup?]

/-- An entry is added where its keyword has none yet. -/
theorem addEntry_eq (table : List Spelling) (s : Spelling) :
    addEntry table s = if lookup? table s.role s.text = none then table ++ [s] else table := by
  unfold addEntry
  simp only [lookup?_eq_none_iff, List.any_eq_true]
  by_cases h : ∃ t ∈ table, (t.role == s.role && t.text == s.text) = true
  · rw [if_pos h, if_neg (by simpa using h)]
  · rw [if_neg h, if_pos (by simpa using h)]

theorem lookup?_addEntry (table : List Spelling) (s : Spelling) (role : Role) (text : Text) :
    lookup? (addEntry table s) role text = (lookup? table role text).or (lookup? [s] role text) := by
  rw [addEntry_eq]
  split
  · exact lookup?_append table [s] role text
  · rename_i h
    by_cases hs : s.role = role ∧ s.text = text
    · obtain ⟨rfl, rfl⟩ := hs
      obtain ⟨t, ht⟩ := Option.ne_none_iff_exists'.1 h
      rw [ht, Option.some_or]
    · have hnone : lookup? [s] role text = none := lookup?_eq_none_iff.2 (by simpa using hs)
      rw [hnone, Option.or_none]

theorem lookup?_foldl_addEntry (added table : List Spelling) (role : Role) (text : Text) :
    lookup? (added.foldl addEntry table) role text =
      (lookup? table role text).or (lookup? added role text) := by
  induction added generalizing table with
  | nil => simp [lookup?]
  | cons s added ih =>
    rw [List.foldl_cons, ih, lookup?_addEntry, Option.or_assoc, ← lookup?_append, List.singleton_append]

theorem distinct_addEntry {table : List Spelling} (s : Spelling)
    (h : table.Pairwise fun a b => ¬a.Same b) :
    (addEntry table s).Pairwise fun a b => ¬a.Same b := by
  rw [addEntry_eq]
  split
  · rename_i hs
    rw [lookup?_eq_none_iff] at hs
    rw [List.pairwise_append]
    exact ⟨h, List.pairwise_singleton _ _, fun t ht u hu => by
      rw [List.mem_singleton.1 hu]; exact hs t ht⟩
  · exact h

theorem distinct_foldl_addEntry (added : List Spelling) {table : List Spelling}
    (h : table.Pairwise fun a b => ¬a.Same b) :
    (added.foldl addEntry table).Pairwise fun a b => ¬a.Same b := by
  induction added generalizing table with
  | nil => exact h
  | cons s added ih => exact ih (distinct_addEntry s h)

/-- In a table without two entries for one keyword, an entry is what is found by its keyword. -/
theorem lookup?_eq_some_iff {table : List Spelling} (h : table.Pairwise fun a b => ¬a.Same b)
    {role : Role} {text : Text} {s : Spelling} :
    lookup? table role text = some s ↔ s ∈ table ∧ s.role = role ∧ s.text = text := by
  constructor
  · exact fun hs => ⟨List.mem_of_find?_eq_some hs, same_of_lookup? hs⟩
  · rintro ⟨hs, rfl, rfl⟩
    obtain ⟨before, after, rfl⟩ := List.append_of_mem hs
    have hbefore : lookup? before s.role s.text = none :=
      lookup?_eq_none_iff.2 fun t ht => (List.pairwise_append.1 h).2.2 t ht s List.mem_cons_self
    rw [lookup?_append, hbefore, Option.none_or]
    simp [lookup?]

theorem lookup?_perm {a b : List Spelling} (h : a.Pairwise fun s t => ¬s.Same t) (hp : a.Perm b)
    (hb : b.Pairwise fun s t => ¬s.Same t) (role : Role) (text : Text) :
    lookup? a role text = lookup? b role text :=
  Option.ext fun s => by
    rw [lookup?_eq_some_iff h, lookup?_eq_some_iff hb, hp.mem_iff]

theorem perm_withSpellings (d : Dialect) (role : Role) (listed : List Text) :
    (d.withSpellings role listed).entries.Perm
      ((listed.filterMap (Spelling.ofListed? role)).foldl addEntry d.entries) :=
  List.mergeSort_perm _ _

theorem distinct_withSpellings {d : Dialect} (h : d.entries.Pairwise fun a b => ¬a.Same b)
    (role : Role) (listed : List Text) :
    (d.withSpellings role listed).entries.Pairwise fun a b => ¬a.Same b :=
  (perm_withSpellings d role listed).pairwise_iff (fun hab hba => hab ⟨hba.1.symm, hba.2.symm⟩)
    |>.2 (distinct_foldl_addEntry _ h)

theorem sorted_withSpellings (d : Dialect) (role : Role) (listed : List Text) :
    (d.withSpellings role listed).entries.Pairwise Spelling.Leads := by
  have htrans (a b c : Spelling) (hab : a.precedes b) (hbc : b.precedes c) : a.precedes c := by
    rw [Spelling.precedes_iff_leads] at *
    unfold Spelling.Leads at *
    omega
  have htotal (a b : Spelling) : (a.precedes b || b.precedes a) = true := by
    rw [Bool.or_eq_true, Spelling.precedes_iff_leads, Spelling.precedes_iff_leads]
    unfold Spelling.Leads
    omega
  exact (List.pairwise_mergeSort htrans htotal _).imp Spelling.precedes_iff_leads.1

theorem lookup?_withSpellings {d : Dialect} (h : d.entries.Pairwise fun a b => ¬a.Same b)
    (r : Role) (listed : List Text) (role : Role) (text : Text) :
    lookup? (d.withSpellings r listed).entries role text =
      (lookup? d.entries role text).or
        (lookup? (listed.filterMap (Spelling.ofListed? r)) role text) := by
  rw [lookup?_perm (distinct_withSpellings h r listed) (perm_withSpellings d r listed)
    (distinct_foldl_addEntry _ h), lookup?_foldl_addEntry]

/-- The entries that the listed spellings stand for, in order, with those of a keyword that has
one already. -/
def candidates (calls : Calls) : List Spelling :=
  calls.listed.filterMap fun p => Spelling.ofListed? p.1 p.2

theorem candidates_cons (role : Role) (listed : List Text) (calls : Calls) :
    candidates ((role, listed) :: calls) =
      listed.filterMap (Spelling.ofListed? role) ++ candidates calls := by
  rw [candidates, Calls.listed, List.flatMap_cons, List.filterMap_append, List.filterMap_map]
  rfl

/-- Whatever the calls and however often the table is sorted, the first entry for a keyword is the
one that stays. -/
theorem lookup?_foldl_withSpellings (calls : Calls) {d : Dialect}
    (h : d.entries.Pairwise fun a b => ¬a.Same b) :
    let built := calls.foldl (fun d c => d.withSpellings c.1 c.2) d
    built.entries.Pairwise (fun a b => ¬a.Same b) ∧
      ∀ role text, lookup? built.entries role text =
        (lookup? d.entries role text).or (lookup? (candidates calls) role text) := by
  induction calls generalizing d with
  | nil => exact ⟨h, fun role text => by simp [candidates, Calls.listed, lookup?]⟩
  | cons c calls ih =>
    obtain ⟨hdistinct, hentry⟩ := ih (distinct_withSpellings h c.1 c.2)
    refine ⟨hdistinct, fun role text => ?_⟩
    rw [List.foldl_cons, hentry, lookup?_withSpellings h, Option.or_assoc, ← lookup?_append,
      ← candidates_cons]

theorem lookup?_candidates_iff {calls : Calls} {s : Spelling} :
    lookup? (candidates calls) s.role s.text = some s ↔ calls.Registers s := by
  rw [lookup?, candidates, List.find?_filterMap, Option.bind_eq_some_iff]
  constructor
  · rintro ⟨⟨role, spelling⟩, hfind, hs⟩
    obtain ⟨-, before, after, heq, hbefore⟩ := List.find?_eq_some_iff_append.1 hfind
    refine ⟨before, role, spelling, after, heq, Spelling.ofListed?_eq_some_iff.1 hs, ?_⟩
    intro p hp t ht hsame
    have hno := hbefore p hp
    rw [Spelling.ofListed?_eq_some_iff.2 ht] at hno
    simp [hsame.1, hsame.2] at hno
  · rintro ⟨before, role, spelling, after, heq, hs, hbefore⟩
    refine ⟨(role, spelling), ?_, Spelling.ofListed?_eq_some_iff.2 hs⟩
    rw [List.find?_eq_some_iff_append]
    refine ⟨by simp [Spelling.ofListed?_eq_some_iff.2 hs], before, after, heq, fun p hp => ?_⟩
    cases ht : Spelling.ofListed? p.1 p.2 with
    | none => rfl
    | some t =>
      have hno := hbefore p hp t (Spelling.ofListed?_eq_some_iff.1 ht)
      simpa [Spelling.Same, -not_and, Classical.not_and_iff_not_or_not] using hno

section Built

variable (code name native : String) (calls : Calls)

theorem distinct_built : (built code name native calls).entries.Pairwise fun a b => ¬a.Same b :=
  (lookup?_foldl_withSpellings calls List.Pairwise.nil).1

theorem lookup?_built (role : Role) (text : Text) :
    lookup? (built code name native calls).entries role text =
      lookup? (candidates calls) role text :=
  ((lookup?_foldl_withSpellings calls List.Pairwise.nil).2 role text).trans Option.none_or

/-- The table holds what was registered and nothing else. -/
theorem mem_entries_built {s : Spelling} :
    s ∈ (built code name native calls).entries ↔ calls.Registers s := by
  rw [← lookup?_candidates_iff, ← lookup?_built code name native,
    lookup?_eq_some_iff (distinct_built code name native calls)]
  simp

theorem sorted_built : (built code name native calls).entries.Pairwise Spelling.Leads := by
  rcases List.eq_nil_or_concat' calls with rfl | ⟨earlier, c, rfl⟩
  · exact List.Pairwise.nil
  · rw [built, List.foldl_append]
    exact sorted_withSpellings _ c.1 c.2

theorem ordered_built : (built code name native calls).Ordered where
  nonempty s hs := by
    obtain ⟨_, _, _, _, -, hlisted, -⟩ := (mem_entries_built code name native calls).1 hs
    exact hlisted.nonempty
  distinct := distinct_built code name native calls
  sorted := sorted_built code name native calls
  asterisk s hs hstep htext := by
    obtain ⟨_, role, _, _, -, hlisted, -⟩ := (mem_entries_built code name native calls).1 hs
    have hrole := hlisted.role_eq
    split at hrole
    · exact hrole
    · rename_i hno
      exact absurd ⟨hrole ▸ hstep, htext⟩ hno

end Built

section Lookup

variable {t : Text} {roles : List Role} {m : KeywordMatch}

/-- What the lookup makes of one entry. -/
def offer? (t : Text) (roles : List Role) (s : Spelling) : Option KeywordMatch :=
  if roles.contains s.role then (s.rest? t).map fun rest => ⟨s.role, s.text, rest⟩ else none

theorem matchKeyword_eq (d : Dialect) (t : Text) (roles : List Role) :
    d.matchKeyword t roles = d.entries.findSome? (offer? t roles) := rfl

theorem offer?_eq_some_iff {s : Spelling} :
    offer? t roles s = some m ↔
      m.role ∈ roles ∧ s.FitsAt t m.rest ∧ s.role = m.role ∧ s.text = m.text := by
  unfold offer?
  constructor
  · intro h
    split at h
    · rename_i hmem
      obtain ⟨rest, hrest, rfl⟩ := Option.map_eq_some_iff.1 h
      exact ⟨List.contains_iff_mem.1 hmem, Spelling.rest?_eq_some_iff.1 hrest, rfl, rfl⟩
    · cases h
  · rintro ⟨hmem, hfits, hrole, htext⟩
    rw [if_pos (List.contains_iff_mem.2 (hrole ▸ hmem)), Spelling.rest?_eq_some_iff.2 hfits,
      hrole, htext]
    rfl

variable (code name native : String) {calls : Calls}

theorem offers_iff :
    calls.Offers roles t m ↔
      ∃ s ∈ (built code name native calls).entries, offer? t roles s = some m := by
  simp only [mem_entries_built, offer?_eq_some_iff]
  constructor
  · rintro ⟨⟨s, hs, hfits, heq⟩, hmem⟩
    exact ⟨s, hs, hmem, hfits, heq⟩
  · rintro ⟨s, hs, hmem, hfits, heq⟩
    exact ⟨⟨s, hs, hfits, heq⟩, hmem⟩

/-- The first entry that fits is the longest that fits, since the table is sorted. -/
theorem isLongest_of_matchKeyword
    (h : (built code name native calls).matchKeyword t roles = some m) :
    calls.IsLongest roles t m := by
  rw [matchKeyword_eq, List.findSome?_eq_some_iff] at h
  obtain ⟨before, s, after, hentries, hs, hbefore⟩ := h
  have hsorted := sorted_built code name native calls
  rw [hentries] at hsorted
  obtain ⟨-, -, hrole, htext⟩ := offer?_eq_some_iff.1 hs
  have hleads (x : KeywordMatch) (hx : calls.Offers roles t x) :
      Text.width x.text ≤ Text.width m.text ∧ (x.text = m.text → m.role.rank ≤ x.role.rank) := by
    obtain ⟨y, hy, hoffer⟩ := (offers_iff code name native).1 hx
    obtain ⟨-, -, hyrole, hytext⟩ := offer?_eq_some_iff.1 hoffer
    rw [← hyrole, ← hytext, ← hrole, ← htext]
    rw [hentries, List.mem_append, List.mem_cons] at hy
    rcases hy with hy | rfl | hy
    · rw [hbefore y hy] at hoffer
      cases hoffer
    · exact ⟨le_rfl, fun _ => le_rfl⟩
    · rcases List.rel_of_pairwise_cons (List.pairwise_append.1 hsorted).2.1 hy with hlt | heq
      · exact ⟨hlt.le, fun h => absurd (h ▸ hlt) (lt_irrefl _)⟩
      · exact ⟨heq.1.ge, fun _ => heq.2⟩
  have hin : s ∈ (built code name native calls).entries := by
    rw [hentries]
    exact List.mem_append_right _ List.mem_cons_self
  exact ⟨(offers_iff code name native).2 ⟨s, hin, hs⟩, fun x hx => (hleads x hx).1, fun x hx => (hleads x hx).2⟩

theorem exists_matchKeyword_iff :
    (∃ m, (built code name native calls).matchKeyword t roles = some m) ↔
      ∃ m, calls.Offers roles t m := by
  rw [matchKeyword_eq, ← Option.isSome_iff_exists, List.findSome?_isSome_iff]
  simp only [offers_iff code name native, Option.isSome_iff_exists]
  exact ⟨fun ⟨s, hs, m, hm⟩ => ⟨m, s, hs, hm⟩, fun ⟨m, s, hs, hm⟩ => ⟨s, hs, m, hm⟩⟩

theorem matchKeyword_eq_some_iff :
    (built code name native calls).matchKeyword t roles = some m ↔ calls.IsLongest roles t m := by
  refine ⟨isLongest_of_matchKeyword code name native, fun h => ?_⟩
  obtain ⟨x, hx⟩ := (exists_matchKeyword_iff code name native).2 ⟨m, h.offered⟩
  rw [hx, (isLongest_of_matchKeyword code name native hx).unique h]

end Lookup

/-- Whatever was listed and in whichever calls, the table holds the first entry of every listed
keyword, sorted and without duplicates, and the lookup finds the longest keyword that fits. -/
theorem matchKeyword_built (code name native : String) (calls : Calls) :
    (built code name native calls).Ordered ∧
      (∀ s, s ∈ (built code name native calls).entries ↔ calls.Registers s) ∧
      ∀ t roles,
        (∀ m, (built code name native calls).matchKeyword t roles = some m ↔
          calls.IsLongest roles t m) ∧
        ((∃ m, (built code name native calls).matchKeyword t roles = some m) ↔
          ∃ m, calls.Offers roles t m) ∧
        ∀ m, (built code name native calls).matchKeyword t roles = some m →
          0 < Text.width m.text ∧ Text.takeBytes? t (Text.width m.text) = some m.text := by
  refine ⟨ordered_built code name native calls, fun s => mem_entries_built code name native calls,
    fun t roles => ⟨fun m => matchKeyword_eq_some_iff code name native,
      exists_matchKeyword_iff code name native, fun m hm => ?_⟩⟩
  have hoffered := (isLongest_of_matchKeyword code name native hm).offered
  refine ⟨Nat.pos_of_ne_zero fun h => ?_, hoffered.takeBytes?⟩
  exact hoffered.nonempty ((Text.width_eq_zero_iff _).1 h)

/-- A longer keyword that does not fit leaves its place to a shorter one of another role. -/
example :
    let d := built "x" "X" "X" [(.givenStep, ["Da ".toList]), (.whenStep, ["Dat".toList, "* ".toList])]
    (d.matchKeyword "Dat a".toList Role.steps).map (·.role) = some .whenStep ∧
      (d.matchKeyword "Da t".toList Role.steps).map (·.role) = some .givenStep ∧
      (d.matchKeyword "* t".toList [.whenStep]) = none := by
  cbv

/-- The table of the English keywords, the longest first. -/
def englishTable : List Spelling :=
  [⟨.scenarioOutline, "Scenario Template".toList, false⟩,
    ⟨.scenarioOutline, "Scenario Outline".toList, false⟩,
    ⟨.feature, "Business Need".toList, false⟩, ⟨.background, "Background".toList, false⟩,
    ⟨.examples, "Scenarios".toList, false⟩, ⟨.scenario, "Scenario".toList, false⟩,
    ⟨.examples, "Examples".toList, false⟩, ⟨.feature, "Feature".toList, false⟩,
    ⟨.feature, "Ability".toList, false⟩, ⟨.scenario, "Example".toList, false⟩,
    ⟨.givenStep, "Given".toList, true⟩, ⟨.rule, "Rule".toList, false⟩,
    ⟨.whenStep, "When".toList, true⟩, ⟨.thenStep, "Then".toList, true⟩,
    ⟨.andStep, "And".toList, true⟩, ⟨.butStep, "But".toList, true⟩,
    ⟨.wildcard, "*".toList, true⟩]

theorem english_eq : english = ⟨"en", "English", "English", englishTable⟩ := by cbv

end Dialect

theorem Options.default_eq :
    default = ⟨⟨"en", "English", "English", Dialect.englishTable⟩, none⟩ := by
  rw [default, Dialect.english_eq]

end GherkinTree
