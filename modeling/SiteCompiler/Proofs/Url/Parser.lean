import SiteCompiler.ModuleId
import SiteCompiler.Proofs.Url.Path

namespace SiteCompiler.Url

structure IsWeb (u : Url) : Prop where
  scheme : u.scheme = "http" ∨ u.scheme = "https"
  host : ∃ host, u.host? = some host ∧ host.text ≠ ""

theorem IsWeb.authority {u : Url} (h : u.IsWeb) : u.authority.isSome := by
  obtain ⟨host, hh, -⟩ := h.host
  rw [host?, Option.bind_eq_some_iff] at hh
  obtain ⟨a, ha, -⟩ := hh
  rw [ha]
  rfl

theorem stripped_append {front : List Char} (rest : List Char) (hn : front ≠ [])
    (hf : ∀ c ∈ front, ¬c.toNat ≤ 0x20) :
    ∃ rest', stripped (.ofList (front ++ rest)) = front ++ rest' := by
  obtain ⟨c, cs, rfl⟩ := List.exists_cons_of_ne_nil hn
  have hfirst : (c :: cs ++ rest).dropWhile (fun c ↦ decide (c.toNat ≤ 0x20)) = c :: cs ++ rest := by
    rw [List.cons_append, List.dropWhile_cons_of_neg]
    simpa using hf c List.mem_cons_self
  have hlast : ∃ rest', ((c :: cs ++ rest).reverse.dropWhile
      (fun c ↦ decide (c.toNat ≤ 0x20))).reverse = c :: cs ++ rest' := by
    rw [List.reverse_append]
    obtain ⟨d, ds, hd⟩ := List.exists_cons_of_ne_nil
      (show (c :: cs).reverse ≠ [] by rw [ne_eq, List.reverse_eq_nil_iff]; exact hn)
    have hdrop : (c :: cs).reverse.dropWhile (fun c ↦ decide (c.toNat ≤ 0x20)) =
        (c :: cs).reverse := by
      have hm : d ∈ c :: cs := List.mem_reverse.1 (by rw [hd]; exact List.mem_cons_self)
      rw [hd, List.dropWhile_cons_of_neg]
      simpa using hf d hm
    rw [List.dropWhile_append]
    split
    · exact ⟨[], by rw [hdrop, List.reverse_reverse, List.append_nil]⟩
    · exact ⟨_, by rw [List.reverse_append, List.reverse_reverse]⟩
  obtain ⟨rest', hr⟩ := hlast
  refine ⟨rest'.filter fun c ↦ c ≠ '\t' && c ≠ '\n' && c ≠ '\r', ?_⟩
  simp only [stripped, String.toList_ofList]
  rw [hfirst, hr, List.filter_append]
  congr 1
  rw [List.filter_eq_self]
  intro d hd
  have h20 := hf d hd
  simp only [Bool.and_eq_true, decide_eq_true_eq]
  refine ⟨⟨?_, ?_⟩, ?_⟩
  all_goals
    rintro rfl
    exact h20 (by decide)

theorem Host.ipv4Text_ne_nil (address : ℕ) : ipv4Text address ≠ [] := by
  have hrange : List.range 4 = [0, 1, 2, 3] := rfl
  rw [ipv4Text, hrange, List.map_cons, List.map_cons, List.intercalate_cons_cons]
  simp

theorem Host.text_ne_empty {written : List Char} {host : Host} (h : Host.parse written = .ok host) :
    host.text ≠ "" := by
  cases host with
  | domain name =>
    rw [Host.parse.eq_def] at h
    split at h
    · split at h
      · next rest _ =>
        cases hv : Host.ipv6? rest.dropLast with
        | error e => rw [hv] at h; cases h
        | ok v => rw [hv] at h; cases h
      · cases h
    · split at h
      · cases h
      · cases h
      · next name' hname he =>
        split at h
        · cases hv : Host.ipv4? name' with
          | error e => rw [hv] at h; cases h
          | ok v => rw [hv] at h; cases h
        · cases h
          rw [Host.text, ne_eq, String.ofList_eq_empty_iff]
          exact hname
  | ipv4 address =>
    rw [Host.text, ne_eq, String.ofList_eq_empty_iff]
    exact ipv4Text_ne_nil address
  | ipv6 pieces =>
    rw [Host.text, ne_eq, String.ofList_eq_empty_iff]
    exact List.cons_ne_nil _ _

theorem host_of_parseAuthority {scheme : String} {cs : List Char} {a : Authority} {rest : List Char}
    (hs : isSpecial scheme = true) (h : parseAuthority scheme cs = .ok (a, rest)) :
    ∃ host, a.host = some host ∧ host.text ≠ "" := by
  unfold parseAuthority at h
  dsimp only at h
  generalize cutHost false _ = parts at h
  obtain ⟨written, port⟩ := parts
  dsimp only at h
  split at h
  · cases h
  · split at h
    · cases h
    · next hne =>
      split at h
      · next he =>
        rw [he, hs] at hne
        exact absurd rfl hne
      · cases hh : Host.parse written with
        | error cause => rw [hh] at h; cases h
        | ok host =>
          rw [hh] at h
          refine ⟨host, ?_, Host.text_ne_empty hh⟩
          cases port with
          | nil => cases h; rfl
          | cons mark digits =>
            dsimp only at h
            cases hp : parsePort scheme digits with
            | error cause => rw [hp] at h; cases h
            | ok r => rw [hp] at h; cases h; rfl
theorem parseHierarchical_eq_ok {scheme : String} {cs : List Char} {u : Url}
    (h : parseHierarchical scheme cs = .ok u) :
    u.scheme = scheme ∧
      (isSpecial scheme = true → ∃ host, u.host? = some host ∧ host.text ≠ "") ∧
      ∃ rest, u.path = (Path.readStart (pathKind scheme) rest).path := by
  rw [parseHierarchical] at h
  cases ha : parseAuthority scheme cs with
  | error cause => rw [ha] at h; cases h
  | ok r =>
    rw [ha] at h
    cases h
    exact ⟨rfl, fun hs ↦ host_of_parseAuthority hs ha, _, rfl⟩

theorem isWeb_of_parseHierarchical {scheme : String} (hs : scheme = "http" ∨ scheme = "https")
    {cs : List Char} {u : Url} (h : parseHierarchical scheme cs = .ok u) :
    u.IsWeb ∧ Path.IsRooted u.path.toList := by
  obtain ⟨hscheme, hh, rest, hp⟩ := parseHierarchical_eq_ok h
  refine ⟨⟨hscheme ▸ hs, hh ?_⟩, ?_⟩
  · rcases hs with rfl | rfl
    all_goals rfl
  have hk : pathKind scheme = .web := by
    rcases hs with rfl | rfl
    all_goals rfl
  rw [hp, hk]
  exact Path.isRooted_readStart rest

theorem isWeb_of_parse {id : String} (hr : ModuleId.isRemote id) {u : Url} (h : parse id = .ok u) :
    u.IsWeb ∧ Path.IsRooted u.path.toList := by
  have hweb : ∀ scheme rest, scheme = "http" ∨ scheme = "https" →
      cutScheme? (stripped id) = some (scheme, rest) → u.IsWeb ∧ Path.IsRooted u.path.toList := by
    intro scheme rest hs hc
    rw [parse, parseWith, hc] at h
    dsimp only at h
    rw [if_neg (by rcases hs with rfl | rfl <;> decide),
      if_pos (by rcases hs with rfl | rfl <;> decide)] at h
    exact isWeb_of_parseHierarchical hs h
  have hcut : ∀ front rest, id = .ofList (front ++ rest) → front ≠ [] →
      (∀ c ∈ front, ¬c.toNat ≤ 0x20) → ∃ rest', stripped id = front ++ rest' := by
    rintro front rest rfl hn hf
    exact stripped_append rest hn hf
  rw [ModuleId.isRemote, Bool.or_eq_true] at hr
  rcases hr with hr | hr
  · obtain ⟨rest, hrest⟩ := List.isPrefixOf_iff_prefix.1 hr
    obtain ⟨rest', hs⟩ := hcut "https://".toList rest
      (by rw [hrest, String.ofList_toList]) (by decide) (by simp)
    refine hweb "https" ('/' :: '/' :: rest') (.inr rfl) ?_
    rw [hs]
    rfl
  · obtain ⟨rest, hrest⟩ := List.isPrefixOf_iff_prefix.1 hr
    obtain ⟨rest', hs⟩ := hcut "http://".toList rest
      (by rw [hrest, String.ofList_toList]) (by decide) (by simp)
    refine hweb "http" ('/' :: '/' :: rest') (.inl rfl) ?_
    rw [hs]
    rfl

theorem IsWeb.withTail {u : Url} (h : u.IsWeb) (rest : List Char) : (u.withTail rest).IsWeb :=
  ⟨h.scheme, h.host⟩

theorem IsWeb.withPath {u : Url} (h : u.IsWeb) (path cs : List Char) : (u.withPath path cs).IsWeb :=
  ⟨h.scheme, h.host⟩

theorem IsWeb.parseRelative {base u : Url} (h : base.IsWeb) {cs : List Char}
    (hp : base.parseRelative cs = .ok u) : u.IsWeb := by
  rw [Url.parseRelative.eq_def] at hp
  split at hp
  · cases hp
    exact ⟨h.scheme, h.host⟩
  · cases hp
    exact h.withTail _
  · cases hp
    exact ⟨h.scheme, h.host⟩
  · dsimp only at hp
    split at hp
    · exact (isWeb_of_parseHierarchical h.scheme hp).1
    · split at hp
      · cases hp
        exact h.withPath _ _
      · cases hp
        exact h.withPath _ _

theorem IsWeb.join {base u : Url} (h : base.IsWeb) {text : String} {c : Char} {cs : List Char}
    (ht : text.toList = c :: cs) (hc : c = '/' ∨ c = '.') (hj : base.join text = .ok u) :
    u.IsWeb := by
  obtain ⟨rest, hs⟩ := stripped_append cs (List.cons_ne_nil c [])
    (by rcases hc with rfl | rfl <;> simp)
  rw [show String.ofList ([c] ++ cs) = text by rw [← String.ofList_toList (s := text), ht]; rfl] at hs
  have hnone : cutScheme? (stripped text) = none := by
    rw [hs]
    rcases hc with rfl | rfl
    all_goals rfl
  rw [Url.join, parseWith, hnone] at hj
  dsimp only at hj
  have hf : ¬(stripped text).head? = some '#' := by
    rw [hs, List.singleton_append, List.head?_cons, Option.some_inj]
    rcases hc with rfl | rfl
    all_goals decide
  have ho : ¬base.isOpaque = true := by
    rw [isOpaque, Option.isNone_eq_false_iff.2 h.authority]
    exact Bool.false_ne_true
  have hfile : ¬base.scheme = "file" := by
    rcases h.scheme with hs | hs <;> rw [hs] <;> decide
  rw [if_neg hf, if_neg ho, if_neg hfile] at hj
  exact h.parseRelative hj

theorem IsWeb.isRemote_text {u : Url} (h : u.IsWeb) : ModuleId.isRemote u.text := by
  obtain ⟨a, ha⟩ := Option.isSome_iff_exists.1 h.authority
  obtain ⟨rest, hr⟩ : ∃ rest, u.text = u.scheme ++ "://" ++ rest := by
    obtain ⟨r, hr⟩ : ∃ r, a.text = "//" ++ r := ⟨_, by
      simp only [Authority.text, String.append_assoc]
      rfl⟩
    refine ⟨r ++ u.path ++ marked "?" u.query ++ marked "#" u.fragment, ?_⟩
    simp only [Url.text, ha, hr, String.append_assoc, show "://" = ":" ++ "//" from rfl]
  rw [ModuleId.isRemote, Bool.or_eq_true, hr]
  rcases h.scheme with hs | hs
  · refine .inr ?_
    rw [hs, Text.startsWith, List.isPrefixOf_iff_prefix, String.toList_append]
    exact List.prefix_append _ _
  · refine .inl ?_
    rw [hs, Text.startsWith, List.isPrefixOf_iff_prefix, String.toList_append]
    exact List.prefix_append _ _

end SiteCompiler.Url
