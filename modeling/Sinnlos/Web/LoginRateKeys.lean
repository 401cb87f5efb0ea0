import Sinnlos.Lib.Ipv6
import Sinnlos.Web.LoginRateLimit

/-! # The bucket keys of IPv6 clients

`rateLimitKeyForIp` of `apps/web/src/lib/login-rate-limit.ts` over the spellings of an
address: one subscriber controls a /64, so the key is what the first four groups write,
whatever their case, their zeros in front and the place of the pair of colons.
-/

namespace Sinnlos.Web

open Text Ipv6

/-- What the language's lower-casing does to texts of ASCII. -/
def LowersAscii (toLowerCase : String → String) : Prop :=
  ∀ text : String, (∀ c ∈ text.toList, c.toNat < 128) →
    (toLowerCase text).toList = text.toList.map Char.toLower

/-! ## Reading a spelling -/

theorem cut_append_of_not_mem {first : Char} {sep piece : List Char} (h : first ∉ piece)
    (rest : List Char) :
    cut (first :: sep) (piece ++ rest) =
      (piece ++ (cut (first :: sep) rest).1, (cut (first :: sep) rest).2) := by
  induction piece with
  | nil => rfl
  | cons c piece ih =>
      have hc : (first == c) = false := by
        rw [beq_eq_false_iff_ne]
        intro heq
        exact h (heq ▸ List.mem_cons_self)
      have hrest := ih (List.not_mem_of_not_mem_cons h)
      simp [cut, List.isPrefixOf, hc, hrest]

/-- A group's text begins with no colon. -/
theorem cut_colon_join (first : Hextet) (rest : List Hextet) (tail : List Char) :
    cut [':', ':'] (':' :: (join (first :: rest) ++ tail)) =
      (':' :: (cut [':', ':'] (join (first :: rest) ++ tail)).1,
        (cut [':', ':'] (join (first :: rest) ++ tail)).2) := by
  have hhead : ∃ c text, c ≠ ':' ∧ join (first :: rest) = c :: text := by
    have hne := first.nonempty
    have hcolon := first.no_colon
    cases hdigits : first.digits with
    | nil => exact absurd hdigits hne
    | cons c digits =>
        rw [hdigits] at hcolon
        have hc : c ≠ ':' := fun heq => hcolon (heq ▸ List.mem_cons_self)
        cases rest with
        | nil => exact ⟨c, digits, hc, by rw [join_singleton, hdigits]⟩
        | cons second rest =>
            exact ⟨c, digits ++ ':' :: join (second :: rest), hc, by
              rw [join_cons_cons, hdigits, List.cons_append]⟩
  obtain ⟨c, text, hc, hjoin⟩ := hhead
  have hbeq : (':' == c) = false := beq_eq_false_iff_ne.mpr hc.symm
  rw [hjoin, List.cons_append, cut, if_neg]
  simp [List.isPrefixOf, hbeq]

/-- Joined groups hold no pair of colons, so the cut goes on behind them. -/
theorem cut_join (groups : List Hextet) (tail : List Char)
    (htail : cut [':', ':'] tail = ([], none) ∨ ∃ rest, cut [':', ':'] tail = ([], some rest)) :
    cut [':', ':'] (join groups ++ tail) = (join groups, (cut [':', ':'] tail).2) := by
  have hfront : (cut [':', ':'] tail).1 = [] := by
    rcases htail with h | ⟨rest, h⟩ <;> rw [h]
  induction groups with
  | nil => exact Prod.ext hfront rfl
  | cons first rest ih =>
      cases rest with
      | nil =>
          rw [join_singleton, cut_append_of_not_mem first.no_colon, hfront, List.append_nil]
      | cons second rest =>
          rw [join_cons_cons, List.append_assoc, List.cons_append,
            cut_append_of_not_mem first.no_colon, cut_colon_join, ih]

theorem cut_join_end (groups : List Hextet) :
    cut [':', ':'] (join groups) = (join groups, none) := by
  have h := cut_join groups [] (.inl rfl)
  rwa [List.append_nil] at h

theorem cut_join_colons (front : List Hextet) (rest : List Char) :
    cut [':', ':'] (join front ++ ':' :: ':' :: rest) = (join front, some rest) := by
  have hcut : cut [':', ':'] (':' :: ':' :: rest) = ([], some rest) := by
    simp [cut, List.isPrefixOf]
  rw [cut_join front _ (.inr ⟨rest, hcut⟩), hcut]

/-- Joined groups are split where they were joined. -/
theorem hextets_join (groups : List Hextet) : hextets (join groups) = groups.map Hextet.digits := by
  cases groups with
  | nil => rfl
  | cons first rest =>
      rw [hextets, if_neg (join_ne_nil first rest)]
      induction rest generalizing first with
      | nil => rw [join_singleton, split_of_not_mem first.no_colon]; rfl
      | cons second rest ih =>
          rw [join_cons_cons, split_append first.no_colon, ih second]
          rfl

/-! ## The key of a spelling -/

/-- One group of a key: in lower case and with its zeros in front. -/
def keyGroup (group : Hextet) : List Char := padStart 4 '0' (group.digits.map Char.toLower)

theorem keyGroup_hex (group : Hextet) : ∀ c ∈ keyGroup group, c ∈ hexDigits := by
  intro c hc
  rcases List.mem_append.mp hc with hzero | hdigit
  · rw [List.eq_of_mem_replicate hzero]
    decide
  · obtain ⟨digit, hmem, rfl⟩ := List.mem_map.mp hdigit
    exact (group.hex digit hmem).spec.2.2.2.1

theorem length_keyGroup (group : Hextet) : (keyGroup group).length = 4 := by
  have hshort := group.short
  simp only [keyGroup, padStart, List.length_append, List.length_replicate, List.length_map]
  omega

theorem hexNumber_keyGroup (group : Hextet) : hexNumber (keyGroup group) = group.value := by
  have hlower : (group.digits.map Char.toLower).map hexValue = group.digits.map hexValue := by
    rw [List.map_map]
    apply List.map_congr_left
    intro c hc
    exact (group.hex c hc).spec.2.2.2.2.2
  rw [keyGroup, padStart, hexNumber_replicate, hexNumber, hlower]
  rfl

theorem keyGroup_eq_iff (a b : Hextet) : keyGroup a = keyGroup b ↔ a.value = b.value := by
  constructor
  · intro h
    rw [← hexNumber_keyGroup a, ← hexNumber_keyGroup b, h]
  · intro h
    apply hexNumber_injective
    · rw [length_keyGroup, length_keyGroup]
    · exact keyGroup_hex a
    · exact keyGroup_hex b
    · rw [hexNumber_keyGroup, hexNumber_keyGroup, h]

theorem keyGroup_no_colon (group : Hextet) : ':' ∉ keyGroup group := by
  intro h
  have hhex : IsHexDigit ':' := List.mem_append_left _ (keyGroup_hex group _ h)
  exact hhex.spec.1 rfl

variable {toLowerCase : String → String}

/-- The key is made of the first four groups, whether written or left to the colons. -/
theorem rateLimitKeyForIp_spelling (hlower : LowersAscii toLowerCase) (spelling : Spelling 8) :
    (rateLimitKeyForIp toLowerCase (String.ofList spelling.text)).toList =
      List.intercalate [':'] ((spelling.groups.take 4).map keyGroup) := by
  have hkey (group : Hextet) :
      (toLowerCase (String.ofList group.digits)).toList = group.digits.map Char.toLower := by
    rw [hlower]
    · rw [String.toList_ofList]
    · intro c hc
      rw [String.toList_ofList] at hc
      exact (group.hex c hc).spec.2.2.1
  have hgroups :
      (let parts := cut [':', ':'] spelling.text
        let headParts := hextets parts.1
        let tailParts := hextets (parts.2.elim [] fun rest => (cut [':', ':'] rest).1)
        let zeros := List.replicate (8 - headParts.length - tailParts.length) ['0']
        if parts.2.isSome then headParts ++ zeros ++ tailParts else headParts) =
        spelling.groups.map Hextet.digits := by
    cases spelling with
    | full groups all =>
        simp only [Spelling.text, Spelling.groups, cut_join_end, hextets_join, Option.isSome_none,
          Bool.false_eq_true, if_false]
    | compressed front back room =>
        simp only [Spelling.text, Spelling.groups, cut_join_colons, cut_join_end, hextets_join,
          Option.isSome_some, if_true, Option.elim_some, List.length_map, List.map_append,
          List.map_replicate]
        rfl
  have hcolon := spelling.colon_mem (by omega)
  have hdot := spelling.no_dot
  simp only [rateLimitKeyForIp, String.toList_ofList]
  rw [if_neg (by simpa using hcolon), if_neg hdot, hgroups, String.toList_intercalate,
    ← List.map_take, List.map_map, List.map_map]
  congr 1
  apply List.map_congr_left
  intro group _
  show (String.ofList (padStart 4 '0' _)).toList = keyGroup group
  rw [String.toList_ofList, hkey]
  rfl

theorem intercalate_keyGroups {a b : List Hextet} (hlength : a.length = b.length) :
    List.intercalate [':'] (a.map keyGroup) = List.intercalate [':'] (b.map keyGroup) ↔
      a.map Hextet.value = b.map Hextet.value := by
  induction a generalizing b with
  | nil =>
      cases b with
      | nil => simp
      | cons _ _ => simp at hlength
  | cons x a ih =>
      cases b with
      | nil => simp at hlength
      | cons y b =>
          have hrest := ih (by simpa using hlength)
          cases a with
          | nil =>
              cases b with
              | nil => simp [keyGroup_eq_iff]
              | cons _ _ => simp at hlength
          | cons x' a =>
              cases b with
              | nil => simp at hlength
              | cons y' b =>
                  simp only [List.map_cons, List.intercalate_cons_cons, List.append_assoc,
                    List.singleton_append] at hrest ⊢
                  constructor
                  · intro h
                    obtain ⟨hfirst, htail⟩ :=
                      join_injective (keyGroup_no_colon x) (keyGroup_no_colon y) h
                    rw [hrest.mp htail, (keyGroup_eq_iff x y).mp hfirst]
                  · intro h
                    obtain ⟨hfirst, htail⟩ := List.cons.inj h
                    rw [(keyGroup_eq_iff x y).mpr hfirst, hrest.mpr htail]

/-- What stands behind the last colon is the dotted part. -/
theorem afterLast_append {sep : Char} {tail : List Char} (h : sep ∉ tail) (front : List Char) :
    afterLast sep (front ++ sep :: tail) = tail := by
  have hall : ∀ c ∈ tail.reverse, decide (c ≠ sep) = true := by
    intro c hc
    rw [decide_eq_true_eq]
    rintro rfl
    exact h (List.mem_reverse.mp hc)
  rw [afterLast, List.rtakeWhile, List.reverse_append, List.reverse_cons, List.append_assoc,
    List.takeWhile_append_of_pos hall]
  simp

/-- Two spellings get one bucket exactly when their addresses share the first 64 bits, and
an IPv4-mapped address in dotted form gets the bucket of its IPv4 address. -/
theorem rateLimitKeyForIp_keys (hlower : LowersAscii toLowerCase) :
    (∀ a b : Spelling 8,
      rateLimitKeyForIp toLowerCase (String.ofList a.text) =
          rateLimitKeyForIp toLowerCase (String.ofList b.text) ↔
        a.address / 2 ^ 64 = b.address / 2 ^ 64) ∧
      ∀ mapped : MappedSpelling,
        rateLimitKeyForIp toLowerCase (String.ofList mapped.text) =
          rateLimitKeyForIp toLowerCase (String.ofList mapped.dotted) := by
  constructor
  · intro a b
    have hlength : (a.groups.take 4).length = (b.groups.take 4).length := by
      simp [a.length_groups, b.length_groups]
    have haddress : a.address / 2 ^ 64 = b.address / 2 ^ 64 ↔ _ := address_div_eq_iff a b 4
    rw [haddress, ← String.toList_inj, rateLimitKeyForIp_spelling hlower,
      rateLimitKeyForIp_spelling hlower]
    exact intercalate_keyGroups hlength
  · intro mapped
    obtain ⟨hcolon, hdot⟩ := mapped.dotted_spec
    have hmember : ':' ∈ mapped.text := by simp [MappedSpelling.text]
    have hpoint : '.' ∈ mapped.text := by simp [MappedSpelling.text, hdot]
    simp only [rateLimitKeyForIp, String.toList_ofList]
    rw [if_neg (by simpa using hmember), if_pos hpoint, if_pos hcolon, MappedSpelling.text,
      afterLast_append hcolon]

/-- A spelling in upper case with a pair of colons and one in full, in one network. -/
theorem rateLimitKeyForIp_keys_network :
    LowersAscii (String.map Char.toLower) ∧
      rateLimitKeyForIp (String.map Char.toLower) "2A03:4000::1" =
        rateLimitKeyForIp (String.map Char.toLower) "2a03:4000:0:0:5:6:7:8" := by
  have hlower : LowersAscii (String.map Char.toLower) := by
    intro text _
    exact String.toList_map
  let a : Spelling 8 := .compressed
    [⟨['2', 'A', '0', '3'], by decide, by decide, forall_mem_of_all rfl⟩,
      ⟨['4', '0', '0', '0'], by decide, by decide, forall_mem_of_all rfl⟩]
    [⟨['1'], by decide, by decide, forall_mem_of_all rfl⟩] (by decide)
  let b : Spelling 8 := .full
    [⟨['2', 'a', '0', '3'], by decide, by decide, forall_mem_of_all rfl⟩,
      ⟨['4', '0', '0', '0'], by decide, by decide, forall_mem_of_all rfl⟩, Hextet.zero, Hextet.zero,
      ⟨['5'], by decide, by decide, forall_mem_of_all rfl⟩, ⟨['6'], by decide, by decide, forall_mem_of_all rfl⟩,
      ⟨['7'], by decide, by decide, forall_mem_of_all rfl⟩, ⟨['8'], by decide, by decide, forall_mem_of_all rfl⟩]
    (by decide)
  have hnetwork : a.address / 2 ^ 64 = b.address / 2 ^ 64 := by decide +kernel
  exact ⟨hlower, ((rateLimitKeyForIp_keys hlower).1 a b).mpr hnetwork⟩

end Sinnlos.Web
