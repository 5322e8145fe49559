import SiteCompiler.Proofs.Graph.ResolvedIds
import SiteCompiler.Proofs.Json.Values
import SiteCompiler.Proofs.Site.Working

namespace SiteCompiler.Site

open Disk (Place placeOf EndsIn)
open ModuleId (IsSegment rooted)
open SiteCompiler.Graph (StoreFile)

variable {s s' : Site} {names names' : List String} {route : String} {w : Place}

def pageNames (names : List String) : List String :=
  if names = ["404"] then ["404.html"] else names ++ ["index.html"]

theorem pageNames_inj (h : pageNames names = pageNames names') : names = names' := by
  have hne : ∀ names : List String, ["404.html"] ≠ names ++ ["index.html"] := by
    intro names he
    have hlast := congrArg List.getLast? he
    rw [List.getLast?_concat] at hlast
    exact absurd (Option.some_inj.1 hlast) (by decide)
  rw [pageNames, pageNames] at h
  split at h
  · next he =>
    split at h
    · next he' => rw [he, he']
    · exact absurd h (hne names')
  · split at h
    · exact absurd h.symm (hne names)
    · exact (List.append_inj' h rfl).1

theorem endsIn_pageNames (p : Place) (names : List String) : EndsIn (p ++ pageNames names) ".html" := by
  rw [pageNames]
  split
  · exact ⟨p, "404", rfl⟩
  · exact ⟨p ++ names, "index", (List.append_assoc p names ["index.html"]).symm⟩

theorem not_stored_pageNames (p : Place) (names : List String) : ¬StoreFile (p ++ pageNames names) := by
  have hends := endsIn_pageNames p names
  rintro (h | h | h)
  · exact ArtifactStore.not_endsIn_of_ne hends (by decide) h
  · exact ArtifactStore.not_endsIn_of_ne hends (by decide) h
  · exact ArtifactStore.not_endsIn_of_ne hends (by decide) h

theorem placeOf_pageFile (h : ∀ name ∈ names, IsSegment name) (w : Place) :
    placeOf w (pageFile (rooted names)) = w ++ pageNames names ∧
      FilePath.isAbsolute (pageFile (rooted names)) = false := by
  have hname : ∀ name, IsSegment name → ∀ w, placeOf w name = w ++ [name] ∧
      FilePath.isAbsolute name = false := fun name hn w ↦ by
    have h := Disk.placeOf_names (List.forall_mem_singleton.2 hn) (List.cons_ne_nil name []) w
    rwa [String.intercalate_singleton] at h
  have hindex := hname "index.html" ⟨by decide, by decide, by decide, by decide⟩
  have hne : ∀ {others : List String}, (∀ name ∈ others, IsSegment name) → names ≠ others →
      rooted names ≠ rooted others := fun ho hne he ↦ hne (by
    rw [← PageTable.segments_rooted h, he, PageTable.segments_rooted ho])
  by_cases hroot : names = []
  · subst hroot
    exact hindex w
  · by_cases hnotFound : names = ["404"]
    · subst hnotFound
      exact hname "404.html" ⟨by decide, by decide, by decide, by decide⟩ w
    · obtain ⟨hplace, hrelative⟩ := Disk.placeOf_names h hroot w
      have hempty : "/".intercalate names ≠ "" := by
        intro he
        have hpieces := Text.pieces_intercalate hroot fun s hs ↦ (h s hs).2.2.2
        rw [show (String.singleton '/').intercalate names = "" from he] at hpieces
        exact (h "" (hpieces ▸ List.mem_cons_self)).1 rfl
      have hfile : pageFile (rooted names) = FilePath.join ("/".intercalate names) "index.html" := by
        have htop : rooted names ≠ "/" := hne (fun _ hm ↦ (List.not_mem_nil hm).elim) hroot
        have hother : rooted names ≠ notFoundRoute := hne
          (List.forall_mem_singleton.2 ⟨by decide, by decide, by decide, by decide⟩) hnotFound
        rw [pageFile, if_neg htop, if_neg hother,
          Source.Folder.trimStart_rooted h]
      obtain ⟨hlast, hrelative'⟩ := hindex (w ++ names)
      rw [hfile, Disk.placeOf_join hrelative', Disk.isAbsolute_join hempty hrelative', hplace, hlast,
        pageNames, if_neg hnotFound, List.append_assoc]
      exact ⟨rfl, hrelative⟩

theorem placeOf_pagePath (h : ∀ name ∈ names, IsSegment name) (s : Site) (w : Place) :
    placeOf w (s.pagePath (rooted names)) = placeOf w s.config.outputDirectory ++ pageNames names := by
  obtain ⟨hplace, hrelative⟩ := placeOf_pageFile h (placeOf w s.config.outputDirectory)
  rw [pagePath, Disk.placeOf_join hrelative, hplace]

theorem Settled.exists_names (h : s.Settled) (hr : route ∈ s.pages.routes) : ∃ names id,
    (∀ name ∈ names, IsSegment name) ∧ route = rooted names ∧ s.pages.moduleId? route = some id := by
  obtain ⟨ids, hpages, hids⟩ := h.pages
  rw [hpages] at hr ⊢
  obtain ⟨id, hid, hroute⟩ := PageTable.mem_routes.1 hr
  obtain ⟨names, hnames, hrooted⟩ := PageTable.exists_names (hids id hid) hroute
  have hfound : (ids.find? fun id ↦ PageTable.pageRoute? id = some route).isSome :=
    List.find?_isSome.2 ⟨id, hid, decide_eq_true hroute⟩
  obtain ⟨id', hid'⟩ := Option.isSome_iff_exists.1 hfound
  exact ⟨names, id', hnames, hrooted, by rw [PageTable.moduleId?_ofIds, hid']⟩

theorem belowBase_requestPrefix (s : Site) (names : List String) :
    Text.segments (Route.belowBase s.config.baseUrl (s.requestPrefix ++ rooted names)) =
      Text.segments (rooted names) := by
  rw [requestPrefix, BaseUrl.requestPrefix, Route.belowBase]
  split
  · rw [String.empty_append]
  · rw [Text.dropStart?_append]
    dsimp only
    rw [if_pos]
    rw [Bool.or_eq_true]
    exact .inr (Text.startsWith_iff.2 ⟨_, rfl⟩)

/-- The location that a build forms for a static route is routed to the route itself, unless a query or
a fragment starts in it or its first name is a locale. -/
theorem route_static (h : s.Settled) (hb : ∀ c ∈ s.config.baseUrl.toList, c ≠ '?' ∧ c ≠ '#')
    (hr : route ∈ s.staticRoutes) (hplain : ∀ c ∈ route.toList, c ≠ '?' ∧ c ≠ '#')
    (hlocale : ∀ first ∈ (Text.segments route).head?, first ∉ s.dictionaries.map Prod.fst) :
    ∃ id, s.pages.moduleId? route = some id ∧ s.route (s.requestPrefix ++ route) =
      (⟨s.config.baseUrl, s.config.defaultLocale, route, route, [], ""⟩, some id) := by
  obtain ⟨hroutes, hstatic⟩ := List.mem_filter.1 hr
  obtain ⟨names, id, hnames, rfl, hid⟩ := h.exists_names hroutes
  refine ⟨id, hid, ?_⟩
  have hall : ∀ c ∈ (s.requestPrefix ++ rooted names).toList, c ≠ '?' ∧ c ≠ '#' := by
    intro c hc
    rw [String.toList_append] at hc
    exact (List.mem_append.1 hc).elim (plain_requestPrefix hb c) (hplain c)
  have hsegments := PageTable.segments_rooted hnames
  have hcut : ∀ options : Route.Options, options.locales = s.dictionaries.map Prod.fst →
      Route.cutLocale options (Text.segments (Route.belowBase s.config.baseUrl
        (Route.cutQuery (s.requestPrefix ++ rooted names)).1)) = (options.defaultLocale, names) := by
    intro options ho
    rw [Route.cutQuery_of_plain hall, belowBase_requestPrefix]
    rw [hsegments] at hlocale ⊢
    cases names with
    | nil => rfl
    | cons first rest =>
      rw [Route.cutLocale, if_neg]
      rw [List.contains_iff_mem, ho]
      exact hlocale first rfl
  have hselected : ∀ fallback : Option String, (s.pages.routes.findSome? fun p ↦
      (Route.match? p names).map (p, ·)).getD (fallback.getD "", []) = (rooted names, []) := by
    intro fallback
    obtain ⟨ids, hpages, hids⟩ := h.pages
    rw [hpages] at hroutes ⊢
    have hown : Route.Selects (PageTable.ofIds ids).routes fallback names (rooted names) [] :=
      .static hroutes (fun hc ↦ by simp [Route.isDynamic_iff.2 hc] at hstatic) hsegments.symm
    obtain ⟨hpath, hparams⟩ := (PageTable.selects_findSome? fallback
      (PageTable.pairwise_routes ids).1).unique
      (fun r hr r' hr' ↦ PageTable.eq_of_segments hids hr hr') hown
    exact Prod.ext hpath hparams
  rw [Site.route, Route.route_eq_mk, Route.segmentsOf, hcut _ rfl, Route.cutQuery_of_plain hall]
  dsimp only
  rw [hselected, hid]
  rfl

/-- The turn of a route while pages are written: what comes before it, the turn itself, and what comes
after it. -/
theorem exists_turn {routes failed : List String} {count : Nat}
    (hok : s.writePages routes = (.ok (count, failed), s')) (hr : route ∈ routes)
    (hn : routes.Nodup) : ∃ isWritten s₂,
      (s.writePages (routes.takeWhile (· ≠ route))).2.writePage route = (.ok isWritten, s₂) ∧
      Works (∃ r ∈ routes, r ≠ route ∧ s₂.pagePath r = ·) s₂ s' ∧
      (isWritten = false → route ∈ failed) := by
  induction routes generalizing s count failed with
  | nil => exact (List.not_mem_nil hr).elim
  | cons first routes ih =>
    obtain ⟨hfirst, hnodup⟩ := List.nodup_cons.1 hn
    rw [writePages] at hok
    rcases hw : s.writePage first with ⟨cause | isWritten, s₀⟩ <;> rw [hw] at hok
    · cases (Prod.mk.inj hok).1
    · have hworks := works_writePages s₀ routes
      dsimp only at hok
      rcases hrest : s₀.writePages routes with ⟨cause | ⟨n, f⟩, s₃⟩ <;> rw [hrest] at hok hworks
      · cases (Prod.mk.inj hok).1
      · obtain ⟨hresult, rfl⟩ := Prod.mk.inj hok
        have hcounts : (if isWritten then (n + 1, f) else (n, first :: f)) = (count, failed) :=
          Except.ok.inj hresult
        rcases List.mem_cons.1 hr with rfl | hr
        · rw [List.takeWhile_cons_of_neg (by simp)]
          refine ⟨isWritten, s₀, hw, hworks.mono ?_, ?_⟩
          · rintro _ ⟨r, hm, rfl⟩
            exact ⟨r, List.mem_cons_of_mem _ hm, fun he ↦ hfirst (he ▸ hm), rfl⟩
          · rintro rfl
            rw [if_neg Bool.false_ne_true] at hcounts
            rw [← (Prod.mk.inj hcounts).2]
            exact List.mem_cons_self
        · have hne : first ≠ route := fun he ↦ hfirst (he ▸ hr)
          obtain ⟨isWritten', s₂, hturn, hafter, hfailed⟩ := ih hrest hr hnodup
          rw [List.takeWhile_cons_of_pos (by simpa using hne), writePages, hw]
          refine ⟨isWritten', s₂, hturn, hafter.mono ?_, fun hf ↦ ?_⟩
          · rintro _ ⟨r, hm, hne, rfl⟩
            exact ⟨r, List.mem_cons_of_mem _ hm, hne, rfl⟩
          · have hm := hfailed hf
            split at hcounts <;> rw [← (Prod.mk.inj hcounts).2]
            · exact hm
            · exact List.mem_cons_of_mem _ hm

theorem Alike.pagePath (h : s.Alike s') (route : String) : s'.pagePath route = s.pagePath route := by
  rw [Site.pagePath, Site.pagePath, h.config]

theorem Alike.staticRoutes (h : s.Alike s') : s'.staticRoutes = s.staticRoutes := by
  rw [Site.staticRoutes, Site.staticRoutes, h.pages]

theorem Alike.requestPrefix (h : s.Alike s') : s'.requestPrefix = s.requestPrefix := by
  rw [Site.requestPrefix, Site.requestPrefix, h.config]

theorem Alike.route_eq (h : s.Alike s') (location : String) : s'.route location = s.route location := by
  rw [Site.route, Site.route, h.config, h.pages, h.dictionaries]

theorem Settled.nodup_staticRoutes (h : s.Settled) : s.staticRoutes.Nodup := by
  obtain ⟨ids, hpages, -⟩ := h.pages
  rw [staticRoutes, hpages]
  exact (PageTable.pairwise_routes ids).2.filter _

theorem readText?_pagePath {routes : List String} {html : String} (h : s.Settled)
    (hroutes : ∀ r ∈ routes, r ∈ s.staticRoutes) (hr : route ∈ s.staticRoutes)
    (hw : Works (∃ r ∈ routes, r ≠ route ∧ s.pagePath r = ·) s s')
    (hread : ArtifactStore.readText? s.world.disk (s.pagePath route) = some html) :
    ArtifactStore.readText? s'.world.disk (s.pagePath route) = some html := by
  obtain ⟨names, -, hnames, rfl, -⟩ := h.exists_names (List.mem_filter.1 hr).1
  refine ArtifactStore.readText?_of_grows (hw.hashed h.hashed).2 hread fun c hnew ↦ ?_
  rw [placeOf_pagePath hnames] at hnew
  rcases hnew with hstored | ⟨_, ⟨r, hm, hne, rfl⟩, hplace⟩
  · exact absurd hstored (not_stored_pageNames _ _)
  · obtain ⟨names', -, hnames', rfl, -⟩ := h.exists_names (List.mem_filter.1 (hroutes r hm)).1
    rw [placeOf_pagePath hnames'] at hplace
    rw [pageNames_inj (List.append_cancel_left hplace)] at hne
    exact absurd rfl hne

theorem page_of_route {l : Route.Location} {id location : String}
    (h : s.route location = (l, some id)) :
    (∃ e, (s.rendered l id).1 = .error e ∧ (s.page location).1.1 = 500) ∨
      ∃ html, (s.rendered l id).1 = .ok html ∧ (s.page location).1.1 ≠ 500 ∧
        (s.page location).1.2 = html := by
  rw [page, h]
  dsimp only
  rcases s.rendered l id with ⟨e | html, s₁⟩
  · exact .inl ⟨e, rfl, rfl⟩
  · refine .inr ⟨html, rfl, ?_, rfl⟩
    dsimp only
    split <;> decide

theorem rendered_of_writePage {l : Route.Location} {id : String} {isWritten : Bool}
    (h : s.route (s.requestPrefix ++ route) = (l, some id))
    (hw : s.writePage route = (.ok isWritten, s')) :
    (∃ e, (s.rendered l id).1 = .error e) ∧ isWritten = false ∨
      ∃ html, (s.rendered l id).1 = .ok html ∧
        ArtifactStore.readText? s'.world.disk (s.pagePath route) = some html := by
  obtain ⟨status, html, s₁, hpage, hcases⟩ := writePage_cases s route
  have hrendered := page_of_route h
  rw [hpage] at hrendered
  dsimp only at hrendered
  rcases hcases with ⟨hstatus, he⟩ | ⟨hstatus, he⟩ <;> rw [hw] at he
  · obtain ⟨e, hrendered, -⟩ := hrendered.resolve_right fun ⟨_, _, hne, _⟩ ↦ hne hstatus
    exact .inl ⟨⟨e, hrendered⟩, Except.ok.inj (Prod.mk.inj he).1⟩
  · obtain ⟨html', hrendered, -, rfl⟩ := hrendered.resolve_left fun ⟨_, _, hfails⟩ ↦ hstatus hfails
    obtain ⟨disk, hs, -, -, hread⟩ := writeFile_cases s₁ (s.pagePath route) html
    obtain ⟨hresult, hs'⟩ := Prod.mk.inj he
    refine .inr ⟨html, hrendered, ?_⟩
    rw [hs', hs]
    refine hread ?_
    generalize (s₁.writeFile (s.pagePath route) html).1 = result at hresult
    cases result with
    | error e => cases hresult
    | ok _ => rfl

/-- Every static page is built from its own module. The location that a build forms for a static route
is routed to the route, unless a query or a fragment starts in it or its first name is a locale; and
after the build either the route is among those that failed, or what was rendered for its module in its
turn stands in its file. -/
theorem builds_of_attained {summary : Summary} (h : s.Attained)
    (hb : ∀ c ∈ s.config.baseUrl.toList, c ≠ '?' ∧ c ≠ '#') (hok : s.build = (.ok summary, s'))
    (hr : route ∈ s.staticRoutes) (hplain : ∀ c ∈ route.toList, c ≠ '?' ∧ c ≠ '#')
    (hlocale : ∀ first ∈ (Text.segments route).head?, first ∉ s.dictionaries.map Prod.fst) :
    let l : Route.Location := ⟨s.config.baseUrl, s.config.defaultLocale, route, route, [], ""⟩
    let turn := ((s.writeFiles s.fixedFiles).2.writePages (s.staticRoutes.takeWhile (· ≠ route))).2
    ∃ id, s.pages.moduleId? route = some id ∧ s.route (s.requestPrefix ++ route) = (l, some id) ∧
      ((∃ e, (turn.rendered l id).1 = .error e) ∧ route ∈ summary.failedPages ∨
        ∃ html, (turn.rendered l id).1 = .ok html ∧
          ArtifactStore.readText? s'.world.disk (s.pagePath route) = some html) := by
  intro l turn
  have hs := h.settled
  obtain ⟨id, hid, hroute⟩ := route_static hs hb hr hplain hlocale
  refine ⟨id, hid, hroute, ?_⟩
  have hfixed := works_writeFiles s s.fixedFiles
  rw [build] at hok
  rcases hw : s.writeFiles s.fixedFiles with ⟨e | _, s₀⟩ <;> rw [hw] at hok hfixed
  · cases (Prod.mk.inj hok).1
  · dsimp only at hok hfixed
    rw [hfixed.alike.staticRoutes] at hok
    have hturn : turn = (s₀.writePages (s.staticRoutes.takeWhile (· ≠ route))).2 := by
      dsimp only [turn]
      rw [hw]
    have hbefore := works_writePages s₀ (s.staticRoutes.takeWhile (· ≠ route))
    rw [← hturn] at hbefore
    have halike := hfixed.alike.trans hbefore.alike
    have hsettled := (hs.works hfixed).works hbefore
    rcases hp : s₀.writePages s.staticRoutes with ⟨e | ⟨count, failed⟩, s₃⟩ <;> rw [hp] at hok
    · cases (Prod.mk.inj hok).1
    · obtain ⟨hsummary, rfl⟩ := Prod.mk.inj hok
      rw [← Except.ok.inj hsummary]
      obtain ⟨isWritten, s₂, hwrite, hafter, hfailed⟩ := exists_turn hp hr hs.nodup_staticRoutes
      rw [← hturn] at hwrite
      have hlast := works_writePage turn route
      rw [hwrite] at hlast
      have halike₂ := halike.trans hlast.alike
      rcases rendered_of_writePage (by rw [halike.requestPrefix, halike.route_eq, hroute]) hwrite with
        ⟨hfails, hnot⟩ | ⟨html, hrendered, hread⟩
      · exact .inl ⟨hfails, hfailed hnot⟩
      · refine .inr ⟨html, hrendered, ?_⟩
        rw [← halike₂.pagePath]
        rw [← hlast.alike.pagePath] at hread
        exact readText?_pagePath (hsettled.works hlast) (fun r hm ↦ halike₂.staticRoutes ▸ hm)
          (halike₂.staticRoutes ▸ hr) hafter hread

section Overwriting

variable {path : String} {files : String → Prop} {fs : List (String × String)}

def buildPaths (s : Site) : List String :=
  s.fixedFiles.map Prod.fst ++ s.staticRoutes.map s.pagePath

def Overwrites (s : Site) (path : String) : Prop :=
  s.world.disk.isDirectory ((FilePath.parent? path).getD "") = true ∧
    s.world.disk.isFile path = true

theorem Overwrites.works (h : s.Overwrites path) (hs : s.Settled) (hw : Works files s s') :
    s'.Overwrites path :=
  have hg := (hw.hashed hs.hashed).2
  ⟨hg.isDirectory h.1, hg.isFile h.2⟩

end Overwriting

def docsDisk (settings words : String) : Disk :=
  ⟨[], [(["i18n"], .directory), (["i18n", "de.json"], .file words.toUTF8),
    (["post.config.json"], .file settings.toUTF8)]⟩

def docsSite (disk : Disk) (pages : PageTable) : Site :=
  { topSite disk pages with
    config := { Config.default "/" with baseUrl := "/docs", file := some "/post.config.json" }
    dictionaries := [("de", .object [])] }

section Opening

variable {settings words : String}

theorem isFile_docsDisk : (docsDisk settings words).isFile "/post.config.json" = true := by
  rfl

theorem readBytes_docsDisk :
    (docsDisk settings words).readBytes "/post.config.json" = .ok settings.toUTF8 := by
  rfl

theorem readFile_docsDisk (h : Json.parse? settings = some (.object [("baseUrl", .string "/docs")])) :
    Config.readFile (docsDisk settings words) "/" =
      .ok (docsSite (docsDisk settings words) .empty).config := by
  have hpath : FilePath.join "/" Config.fileName = "/post.config.json" := by
    decide
  have hclean : BaseUrl.clean "/docs" = "/docs" := by
    decide +kernel
  have htext : (docsDisk settings words).readText "/post.config.json" = .ok settings :=
    ArtifactStore.readText_of_readBytes readBytes_docsDisk
  have happly : { (Config.default "/").applyDocument [("baseUrl", .string "/docs")] with
      file := some "/post.config.json" } = (docsSite (docsDisk settings words) .empty).config := by
    change { Config.default "/" with
      baseUrl := BaseUrl.clean "/docs", file := some "/post.config.json" } = _
    rw [hclean]
    rfl
  rw [Config.readFile, hpath, isFile_docsDisk, if_pos rfl, htext, ← happly]
  simp only [Except.mapError, bind, Except.bind, h, pure, Except.pure]

theorem dictionaries_docsDisk (h : Json.parse? words = some (.object [])) :
    Discovery.dictionaries (ArtifactStore.openAt (docsDisk settings words) "/.cache"
      Graph.storeVersion).2 "/" = [("de", .object [])] := by
  generalize hd : (ArtifactStore.openAt (docsDisk settings words) "/.cache" Graph.storeVersion).2 = d
  have hlocate : d.locate (FilePath.join "/" "i18n") = .ok ["i18n"] := by
    rw [← hd]
    rfl
  have hentry : d.entry? ["i18n"] = some .directory := by
    rw [← hd]
    rfl
  have hnames : d.namesAt ["i18n"] = [("de.json", .file words.toUTF8)] := by
    rw [← hd, Disk.namesAt]
    exact List.mergeSort_singleton _
  have hread : d.readBytes (FilePath.join (FilePath.join "/" "i18n") "de.json") = .ok words.toUTF8 := by
    rw [← hd]
    rfl
  have hdirectory : d.readDirectory (FilePath.join "/" "i18n") = .ok [("de.json", .file words.toUTF8)] := by
    rw [← hnames]
    simp only [Disk.readDirectory, hlocate, bind, Except.bind, hentry, pure, Except.pure]
  have hlocale : Text.dropEnd? ".json" "de.json" = some "de" := by
    decide
  rw [Discovery.dictionaries, hdirectory]
  simp only [List.filterMap_cons, List.filterMap_nil, hlocale, ArtifactStore.readText_of_readBytes hread]
  simp only [Option.bind_eq_bind, Option.bind_some, Except.toOption, h, Option.pure_def]
  exact Json.Ordered.sortMembers_eq (List.pairwise_singleton _ _)

theorem prepare_docsDisk (h : Json.parse? words = some (.object [])) :
    prepare (docsDisk settings words) ⟨[], .error .hostNotFound, []⟩
      (docsSite (docsDisk settings words) .empty).config ⟨[]⟩
      { Options.default with importMap? := some ⟨[]⟩ } =
    docsSite (ArtifactStore.openAt (docsDisk settings words) "/.cache" Graph.storeVersion).2 .empty := by
  have hcache : (docsSite (docsDisk settings words) .empty).config.cacheDirectory = "/.cache" := by
    change FilePath.join "/" ".cache" = _
    decide
  rw [prepare, hcache]
  dsimp only
  rw [show (docsSite (docsDisk settings words) .empty).config.sourceDirectory = "/" from rfl,
    dictionaries_docsDisk h]
  rfl

theorem openAt_docsDisk (hs : Json.parse? settings = some (.object [("baseUrl", .string "/docs")]))
    (hw : Json.parse? words = some (.object [])) :
    (openAt (docsDisk settings words) ⟨[], .error .hostNotFound, []⟩ [] "/"
      { Options.default with importMap? := some ⟨[]⟩ }).result = .ok (docsSite
        (ArtifactStore.openAt (docsDisk settings words) "/.cache" Graph.storeVersion).2 .empty) := by
  have hload : loadSettings (docsDisk settings words) [] "/"
      { Options.default with importMap? := some ⟨[]⟩ } =
        .ok ((docsSite (docsDisk settings words) .empty).config, ⟨[]⟩) := by
    rw [loadSettings, Config.load, readFile_docsDisk hs]
    rfl
  have hprepare : prepare (docsDisk settings words) _ _ _ _ = _ := prepare_docsDisk hw
  generalize hd : (ArtifactStore.openAt (docsDisk settings words) "/.cache" Graph.storeVersion).2 = d
    at hprepare ⊢
  have happ : Discovery.appModule? d "/" = none := by
    rw [← hd]
    rfl
  have hmodules : Discovery.modules d "/" = [] := by
    refine modules_eq_nil ?_
    rw [← hd]
    intro name hname
    simp only [Discovery.moduleDirectories, List.mem_cons, List.not_mem_nil, or_false] at hname
    rcases hname with rfl | rfl <;> rfl
  have hrefresh : (docsSite d .empty).refreshPages = docsSite d .empty := by
    change { docsSite d .empty with
      pages := PageTable.ofIds (Discovery.modules d "/")
      appModule? := Discovery.appModule? d "/" } = docsSite d .empty
    rw [happ, hmodules, PageTable.ofIds_nil]
    rfl
  rw [← hrefresh]
  exact openAt_of_empty hload hprepare happ hmodules

end Opening

def docsSettings : Json :=
  .object [("baseUrl", .string "/docs")]

def aboutDisk : Disk :=
  ⟨[], (docsDisk docsSettings.pretty (Json.object []).pretty).entries ++
    [(["pages"], .directory), (["pages", "about.js"], .file "".toUTF8)]⟩

def aboutSite : Site :=
  docsSite aboutDisk ⟨[("/about", "/pages/about.js")]⟩

theorem modules_aboutDisk : Discovery.modules aboutDisk "/" = ["/pages/about.js"] := by
  have hfiles : aboutDisk.filesBelow ["pages"] = [(["about.js"], "".toUTF8)] := by
    rw [Disk.filesBelow]
    exact List.mergeSort_singleton _
  have hpages : Discovery.modulesIn aboutDisk "/" "pages" = ["/pages/about.js"] := by
    rw [Discovery.modulesIn, show aboutDisk.locate (FilePath.join "/" "pages") = .ok ["pages"] from rfl]
    dsimp only
    rw [if_pos (by decide), hfiles]
    decide
  have hcomponents : Discovery.modulesIn aboutDisk "/" "components" = [] := by
    rw [Discovery.modulesIn, show aboutDisk.locate (FilePath.join "/" "components") = .ok ["components"]
      from rfl]
    dsimp only
    rw [if_neg (by decide)]
  rw [Discovery.modules, Discovery.moduleDirectories]
  simp only [List.flatMap_cons, List.flatMap_nil, hpages, hcomponents]
  exact List.mergeSort_singleton _

theorem tidy_docsDisk : (docsDisk docsSettings.pretty (Json.object []).pretty).Tidy :=
  ⟨by unfold ModuleId.IsSegment; decide, by decide, by decide⟩

theorem tidy_aboutDisk : aboutDisk.Tidy :=
  ⟨by unfold ModuleId.IsSegment; decide, by decide, by decide⟩

theorem attained_aboutSite : aboutSite.Attained := by
  have hsettings : Json.parse? docsSettings.pretty = some (.object [("baseUrl", .string "/docs")]) :=
    Json.parse?_pretty ⟨List.pairwise_singleton _ _, trivial, trivial⟩ (by decide)
  have hwords : Json.parse? (Json.object []).pretty = some (.object []) :=
    Json.parse?_pretty ⟨.nil, trivial⟩ (by decide)
  have hopened := Attained.opened tidy_docsDisk (openAt_docsDisk hsettings hwords)
  have hchanged := (hopened.edited tidy_aboutDisk ⟨[], .error .hostNotFound, []⟩).changed "pages/gone.js"
  change ((docsSite aboutDisk .empty).change "pages/gone.js").2.Attained at hchanged
  have hid : (docsSite aboutDisk .empty).moduleIdOf? "pages/gone.js" = some "/pages/gone.js" := by
    decide
  have hfile : aboutDisk.isFile
      ((docsSite aboutDisk .empty).world.graph.folder.basePath "/pages/gone.js") = false := by
    decide
  have happ : Discovery.appModule? aboutDisk "/" = none := by
    decide
  have hremoved : ((docsSite aboutDisk .empty).change "pages/gone.js").2 =
      { docsSite aboutDisk .empty with
        pages := PageTable.ofIds (Discovery.modules aboutDisk "/")
        appModule? := Discovery.appModule? aboutDisk "/" } := by
    rw [change, hid]
    dsimp only
    rw [show (docsSite aboutDisk .empty).world.disk = aboutDisk from rfl, hfile]
    rfl
  have hpages : PageTable.ofIds ["/pages/about.js"] = ⟨[("/about", "/pages/about.js")]⟩ :=
    PageTable.ofIds_singleton (by decide)
  rw [hremoved, happ, modules_aboutDisk, hpages] at hchanged
  exact hchanged

set_option maxRecDepth 8000 in
theorem failedPages_aboutSite : aboutSite.build.1.toOption.map (·.failedPages) = some [] := by
  decide +kernel

theorem build_aboutSite : ∃ summary s', aboutSite.build = (.ok summary, s') ∧
    summary.failedPages = [] := by
  have hshape : ∀ r : Except Error Summary × Site, r.1.toOption.map (·.failedPages) = some [] →
      ∃ summary s', r = (.ok summary, s') ∧ summary.failedPages = [] := by
    rintro ⟨e | summary, s'⟩ h
    · cases h
    · exact ⟨summary, s', rfl, Option.some_inj.1 h⟩
  exact hshape _ failedPages_aboutSite

theorem builds_aboutSite : ∃ summary s', aboutSite.Attained ∧ aboutSite.build = (.ok summary, s') ∧
    aboutSite.dictionaries.map Prod.fst = ["de"] ∧ "/about" ∈ aboutSite.staticRoutes ∧
    aboutSite.route "/docs/about" =
      (⟨"/docs", "en", "/about", "/about", [], ""⟩, some "/pages/about.js") ∧
    ∃ html, ArtifactStore.readText? s'.world.disk "/out/about/index.html" = some html := by
  have hbase : ∀ c ∈ "/docs".toList, c ≠ '?' ∧ c ≠ '#' := by
    simp
  have hplain : ∀ c ∈ "/about".toList, c ≠ '?' ∧ c ≠ '#' := by
    simp
  have hr : "/about" ∈ aboutSite.staticRoutes := by
    decide
  have hlocale : ∀ first ∈ (Text.segments "/about").head?,
      first ∉ aboutSite.dictionaries.map Prod.fst := by
    decide
  obtain ⟨summary, s', hb, hfailed⟩ := build_aboutSite
  obtain ⟨id, hid, hroute, hturn⟩ := builds_of_attained attained_aboutSite hbase hb hr hplain hlocale
  obtain rfl : id = "/pages/about.js" := Option.some_inj.1 hid.symm
  obtain ⟨html, -, hread⟩ := hturn.resolve_left fun ⟨_, hm⟩ ↦ by
    rw [hfailed] at hm
    exact List.not_mem_nil hm
  exact ⟨summary, s', attained_aboutSite, hb, rfl, hr, hroute, html, hread⟩

end SiteCompiler.Site
