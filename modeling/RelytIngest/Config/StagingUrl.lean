import RelytIngest.Config.Staging

/-!
# Staging URLs

`stagingUrlBase` announces a location to the server and `parseStagingUrl` reads the one that the
server hands out. What is parsed is printed and parsed as itself (`staging_url_stable`), so fetching
the location again never looks like a move. The objects are written somewhere else than announced
where the parts of a location have slashes of their own: `announced_where_written` says for which
configurations both places are the same, `written_elsewhere` is one that is accepted and not among
them.
-/

set_option autoImplicit false
set_option relaxedAutoImplicit false

namespace RelytIngest

open Foundations

/-! ### Printing and parsing -/

/-- `staging_url_base`: every store is announced as `s3`. -/
def stagingUrlBase (cfg : StagingConfig) : Text :=
  let inner := trimMatches '/' cfg.pathPrefix
  if inner = [] then "s3://".toList ++ cfg.endpoint ++ '/' :: cfg.bucket
  else "s3://".toList ++ cfg.endpoint ++ '/' :: cfg.bucket ++ '/' :: inner

/-- The endpoint, the bucket and the rest of a staging URL. -/
def splitStagingUrl (url : Text) : Except Error (Text × Text × Text) :=
  match "s3://".toList.isPrefixOf? url with
  | none =>
    .error (.config ("staging url from the server must start with `s3://`, got `" ++
      String.ofList url ++ "`"))
  | some rest =>
    match splitOnce '/' rest with
    | none =>
      .error (.config ("staging url from the server has no bucket: expected " ++
        "s3://<endpoint>/<bucket>[/<prefix>], got `" ++ String.ofList url ++ "`"))
    | some (endpoint, afterHost) =>
      let afterHost := trimStartMatches '/' afterHost
      let (bucket, rest) := (splitOnce '/' afterHost).getD (afterHost, [])
      if endpoint = [] ∨ bucket = [] then
        .error (.config ("staging url from the server has an empty endpoint or bucket: `" ++
          String.ofList url ++ "`"))
      else .ok (endpoint, bucket, rest)

/-- `parse_staging_url`. -/
def parseStagingUrl (url accessKeyId secretAccessKey : Text) : Except Error StagingConfig := do
  let (endpoint, bucket, pathPrefix) ← splitStagingUrl url
  match classifyEndpoint endpoint with
  | none =>
    .error (.config ("the staging url the Relyt master handed out (`" ++ String.ofList url ++
      "`) names an endpoint the client cannot sign for. Relyt-managed staging accepts the " ++
      "endpoints the Relyt master itself reads: Alibaba OSS (*.aliyuncs.com), AWS S3 " ++
      "(*.amazonaws.com, *.amazonaws.com.cn), Tencent COS (*.myqcloud.com), Kingsoft KS3 " ++
      "(*.ksyuncs.com), UCloud US3 (*.ufileos.com) and Volcengine TOS (*.volces.com, " ++
      "*.ivolces.com). Ask the Relyt administrator to provision one of those, or use your own " ++
      "bucket through Staging::Customer(..) with an explicit region"))
  | some (service, region) =>
    return ⟨endpoint, bucket, trimMatches '/' pathPrefix, accessKeyId, secretAccessKey, service,
      region⟩

/-- A URL in the shape that is announced is split into its parts, whatever slashes there are in
front of the bucket. -/
theorem splitStagingUrl_of_parts {endpoint slashes bucket rest : Text} (hendpoint : endpoint ≠ [])
    (hhost : '/' ∉ endpoint) (hslashes : ∀ c ∈ slashes, c = '/') (hbucket : bucket ≠ [])
    (hslash : '/' ∉ bucket) :
    splitStagingUrl ("s3://".toList ++ (endpoint ++ '/' :: (slashes ++ (bucket ++ '/' :: rest)))) =
        .ok (endpoint, bucket, rest) ∧
      splitStagingUrl ("s3://".toList ++ (endpoint ++ '/' :: (slashes ++ bucket))) =
        .ok (endpoint, bucket, []) := by
  have htrim (more : Text) :
      trimStartMatches '/' (slashes ++ (bucket ++ more)) = bucket ++ more := by
    rw [trimStartMatches, List.dropWhile_append_of_pos fun c hc ↦ beq_iff_eq.mpr (hslashes c hc)]
    refine trimStartMatches_of_head? fun hhead ↦ hslash ?_
    rw [List.head?_append_of_ne_nil _ hbucket] at hhead
    exact List.mem_of_mem_head? hhead
  have hscheme (more : Text) : "s3://".toList.isPrefixOf? ("s3://".toList ++ more) = some more := by
    simp [List.isPrefixOf?_eq_some_iff_append_eq]
  have hempty : ¬(endpoint = [] ∨ bucket = []) := not_or.mpr ⟨hendpoint, hbucket⟩
  constructor
  · unfold splitStagingUrl
    simp only [hscheme, splitOnce_append hhost, htrim, splitOnce_append hslash, Option.getD_some]
    exact if_neg hempty
  · have hbare := htrim []
    rw [List.append_nil] at hbare
    unfold splitStagingUrl
    simp only [hscheme, splitOnce_append hhost, hbare, splitOnce_eq_none_iff.mpr hslash,
      Option.getD_none]
    exact if_neg hempty

/-- What a staging URL is split into. -/
theorem splitStagingUrl_ok {url endpoint bucket rest : Text}
    (h : splitStagingUrl url = .ok (endpoint, bucket, rest)) :
    endpoint ≠ [] ∧ '/' ∉ endpoint ∧ bucket ≠ [] ∧ '/' ∉ bucket ∧
      ∃ slashes tail, url = "s3://".toList ++ (endpoint ++ '/' :: (slashes ++ (bucket ++ tail))) ∧
        (∀ c ∈ slashes, c = '/') ∧ (tail = [] ∧ rest = [] ∨ tail = '/' :: rest) := by
  unfold splitStagingUrl at h
  split at h
  · exact absurd h (by simp)
  next after hscheme =>
  rw [List.isPrefixOf?_eq_some_iff_append_eq] at hscheme
  split at h
  · exact absurd h (by simp)
  next host afterHost hcut =>
  obtain ⟨rfl, hhost⟩ := splitOnce_eq_some_iff.mp hcut
  have hslashes : ∀ c ∈ afterHost.takeWhile (· == '/'), c = '/' := fun c hc ↦
    beq_iff_eq.mp (List.mem_takeWhile_imp (p := (· == '/')) hc)
  have hparts : afterHost.takeWhile (· == '/') ++ trimStartMatches '/' afterHost = afterHost :=
    List.takeWhile_append_dropWhile
  cases hbucket : splitOnce '/' (trimStartMatches '/' afterHost) with
  | none =>
    simp only [hbucket, Option.getD_none] at h
    split_ifs at h with hempty
    rw [not_or] at hempty
    simp only [Except.ok.injEq, Prod.mk.injEq] at h
    obtain ⟨rfl, rfl, rfl⟩ := h
    refine ⟨hempty.1, hhost, hempty.2, splitOnce_eq_none_iff.mp hbucket, _, [], ?_, hslashes,
      Or.inl ⟨rfl, rfl⟩⟩
    rw [List.append_nil, hparts, ← hscheme]
  | some cut =>
    obtain ⟨front, back⟩ := cut
    simp only [hbucket, Option.getD_some] at h
    split_ifs at h with hempty
    rw [not_or] at hempty
    simp only [Except.ok.injEq, Prod.mk.injEq] at h
    obtain ⟨rfl, rfl, rfl⟩ := h
    obtain ⟨htext, hfront⟩ := splitOnce_eq_some_iff.mp hbucket
    refine ⟨hempty.1, hhost, hempty.2, hfront, _, '/' :: back, ?_, hslashes, Or.inr rfl⟩
    rw [← htext, hparts, ← hscheme]

/-- What `parse_staging_url` makes of a URL that it accepts. -/
theorem parseStagingUrl_ok {url accessKeyId secretAccessKey : Text} {cfg : StagingConfig}
    (h : parseStagingUrl url accessKeyId secretAccessKey = .ok cfg) :
    ∃ rest, splitStagingUrl url = .ok (cfg.endpoint, cfg.bucket, rest) ∧
      cfg.pathPrefix = trimMatches '/' rest ∧
      classifyEndpoint cfg.endpoint = some (cfg.service, cfg.region) ∧
      cfg.accessKeyId = accessKeyId ∧ cfg.secretAccessKey = secretAccessKey := by
  unfold parseStagingUrl at h
  obtain ⟨⟨endpoint, bucket, rest⟩, hsplit, h⟩ := except_bind_eq_ok_iff.mp h
  simp only at h
  split at h
  · exact absurd h (by simp)
  · next service region hclass =>
    obtain rfl := Except.ok.inj h
    exact ⟨rest, hsplit, rfl, hclass, rfl, rfl⟩

/-! ### The handle of the location in use -/

/-- A snapshot of the location: its configuration, the store built from it and its URL. -/
structure StagingLive (σ : Type) where
  cfg : StagingConfig
  store : σ
  urlBase : Text

section Handle

/- `operator` builds the client of an object store. -/
variable {σ : Type} (operator : StagingConfig → Option Text → Except Error σ)

/-- `StagingStore::new`: a store that is signed for as S3 needs its region. -/
def StagingConfig.newStore (cfg : StagingConfig) : Except Error σ :=
  match cfg.service with
  | .oss => operator cfg none
  | .s3 =>
    match cfg.resolveRegion with
    | none =>
      .error (.config ("no region for S3 endpoint `" ++ String.ofList cfg.endpoint ++ "`"))
    | some region => operator cfg (some region)

def StagingLive.build (cfg : StagingConfig) : Except Error (StagingLive σ) := do
  let store ← cfg.newStore operator
  return ⟨cfg, store, stagingUrlBase cfg⟩

/-- `StagingHandle::apply`: whether a fresh configuration was installed, and what is live then. -/
def StagingLive.apply (cur : StagingLive σ) (fresh : StagingConfig) :
    Except Error (Bool × StagingLive σ) :=
  if fresh.endpoint ≠ cur.cfg.endpoint ∨ fresh.bucket ≠ cur.cfg.bucket ∨
      fresh.pathPrefix ≠ cur.cfg.pathPrefix ∨ fresh.service ≠ cur.cfg.service then
    .error (.config ("staging location changed on the server (was `" ++
      String.ofList cur.urlBase ++ "`, now `" ++ String.ofList (stagingUrlBase fresh) ++
      "`); bucket and prefix are fixed for the life of a process, restart the writer to move"))
  else if fresh.accessKeyId = cur.cfg.accessKeyId ∧
      fresh.secretAccessKey = cur.cfg.secretAccessKey ∧ fresh.region = cur.cfg.region then
    .ok (false, cur)
  else do
    let live ← StagingLive.build operator fresh
    return (true, live)

end Handle

/-- The location of a configuration that was parsed. -/
structure ParsedLocation (cfg : StagingConfig) : Prop where
  endpoint : cfg.endpoint ≠ [] ∧ '/' ∉ cfg.endpoint
  bucket : cfg.bucket ≠ [] ∧ '/' ∉ cfg.bucket
  pathPrefix : BareOf '/' cfg.pathPrefix

theorem parsedLocation_of_parse {url accessKeyId secretAccessKey : Text} {cfg : StagingConfig}
    (h : parseStagingUrl url accessKeyId secretAccessKey = .ok cfg) : ParsedLocation cfg := by
  obtain ⟨rest, hsplit, hprefix, -⟩ := parseStagingUrl_ok h
  obtain ⟨hendpoint, hhost, hbucket, hslash, -⟩ := splitStagingUrl_ok hsplit
  exact ⟨⟨hendpoint, hhost⟩, ⟨hbucket, hslash⟩, hprefix ▸ bareOf_trimMatches '/' rest⟩

/-- The printed URL of a parsed location is parsed as that location, whatever the credentials. -/
theorem parse_stagingUrlBase {cfg : StagingConfig} (hlocation : ParsedLocation cfg)
    (hclass : classifyEndpoint cfg.endpoint = some (cfg.service, cfg.region))
    (accessKeyId secretAccessKey : Text) :
    parseStagingUrl (stagingUrlBase cfg) accessKeyId secretAccessKey =
      .ok { cfg with accessKeyId := accessKeyId, secretAccessKey := secretAccessKey } := by
  have hsplit : splitStagingUrl (stagingUrlBase cfg) =
      .ok (cfg.endpoint, cfg.bucket, cfg.pathPrefix) := by
    have hnone : ∀ c ∈ ([] : Text), c = '/' := by simp
    obtain ⟨hlong, hshort⟩ := splitStagingUrl_of_parts hlocation.endpoint.1 hlocation.endpoint.2
      hnone hlocation.bucket.1 hlocation.bucket.2
    simp only [stagingUrlBase, trimMatches_of_edges hlocation.pathPrefix, List.append_assoc,
      List.cons_append]
    by_cases hempty : cfg.pathPrefix = []
    · rw [if_pos hempty, hempty]
      exact hshort
    · rw [if_neg hempty]
      exact hlong
  unfold parseStagingUrl
  rw [hsplit]
  simp only [bind, Except.bind, hclass, trimMatches_of_edges hlocation.pathPrefix]
  rfl

/-- What the server hands out is accepted, printed and parsed as itself, and what is parsed again is
never taken for another location: with the same credentials nothing changes, with others a store is
built for them. -/
theorem staging_url_stable {σ : Type} (operator : StagingConfig → Option Text → Except Error σ)
    (url accessKeyId secretAccessKey : Text) (cfg : StagingConfig)
    (hparse : parseStagingUrl url accessKeyId secretAccessKey = .ok cfg)
    (haccess : validateCredential "access_key_id" accessKeyId = .ok ())
    (hsecret : validateCredential "secret_access_key" secretAccessKey = .ok ()) :
    validateStaging cfg = .ok () ∧ ParsedLocation cfg ∧
      parseStagingUrl (stagingUrlBase cfg) accessKeyId secretAccessKey = .ok cfg ∧
      ∀ cur : StagingLive σ, cur.cfg = cfg → ∀ accessKeyId' secretAccessKey', ∃ fresh,
        parseStagingUrl (stagingUrlBase cfg) accessKeyId' secretAccessKey' = .ok fresh ∧
          cur.apply operator fresh =
            if accessKeyId' = accessKeyId ∧ secretAccessKey' = secretAccessKey then
              .ok (false, cur)
            else (StagingLive.build operator fresh).map fun live ↦ (true, live) := by
  have hlocation := parsedLocation_of_parse hparse
  obtain ⟨rest, -, -, hclass, rfl, rfl⟩ := parseStagingUrl_ok hparse
  refine ⟨?_, hlocation, parse_stagingUrlBase hlocation hclass _ _, ?_⟩
  · refine (validateStaging_eq_ok_iff cfg).mpr ⟨haccess, hsecret, hlocation.bucket.1,
      hlocation.endpoint.1, fun hs3 ↦ ?_⟩
    rw [hs3] at hclass
    unfold StagingConfig.resolveRegion
    cases hregion : cfg.region with
    | none => exact absurd hregion (classifyEndpoint_region hclass)
    | some region => exact Option.some_ne_none _
  · rintro cur rfl accessKeyId' secretAccessKey'
    refine ⟨_, parse_stagingUrlBase hlocation hclass _ _, ?_⟩
    unfold StagingLive.apply
    rw [if_neg (by simp)]
    by_cases hsame : accessKeyId' = cur.cfg.accessKeyId ∧
        secretAccessKey' = cur.cfg.secretAccessKey
    · rw [if_pos ⟨hsame.1, hsame.2, rfl⟩, if_pos hsame]
    · rw [if_neg fun h ↦ hsame ⟨h.1, h.2.1⟩, if_neg hsame]
      rfl

/-- A location handed out with doubled and trailing slashes and a port. -/
theorem staging_url_stable_slashes :
    validateStaging ⟨"oss-cn-hangzhou.aliyuncs.com:443".toList, ['b'], "a//p".toList, "ak".toList,
        "sk".toList, .oss, none⟩ = .ok () ∧
      ParsedLocation ⟨"oss-cn-hangzhou.aliyuncs.com:443".toList, ['b'], "a//p".toList, "ak".toList,
        "sk".toList, .oss, none⟩ ∧
      parseStagingUrl (stagingUrlBase ⟨"oss-cn-hangzhou.aliyuncs.com:443".toList, ['b'],
        "a//p".toList, "ak".toList, "sk".toList, .oss, none⟩) "ak".toList "sk".toList =
        .ok ⟨"oss-cn-hangzhou.aliyuncs.com:443".toList, ['b'], "a//p".toList, "ak".toList,
          "sk".toList, .oss, none⟩ ∧
      ∀ cur : StagingLive Unit,
        cur.cfg = ⟨"oss-cn-hangzhou.aliyuncs.com:443".toList, ['b'], "a//p".toList, "ak".toList,
          "sk".toList, .oss, none⟩ → ∀ accessKeyId' secretAccessKey', ∃ fresh,
        parseStagingUrl (stagingUrlBase ⟨"oss-cn-hangzhou.aliyuncs.com:443".toList, ['b'],
          "a//p".toList, "ak".toList, "sk".toList, .oss, none⟩) accessKeyId' secretAccessKey' =
            .ok fresh ∧
          cur.apply (fun _ _ ↦ .ok ()) fresh =
            if accessKeyId' = "ak".toList ∧ secretAccessKey' = "sk".toList then .ok (false, cur)
            else (StagingLive.build (fun _ _ ↦ .ok ()) fresh).map fun live ↦ (true, live) :=
  staging_url_stable (fun _ _ ↦ .ok ())
    "s3://oss-cn-hangzhou.aliyuncs.com:443//b//a//p/".toList "ak".toList "sk".toList _
    (by decide +kernel) (by decide) (by decide)

/-! ### Where an object is written and where it is announced -/

/-- The place of an object: the host that is asked for it, and its bucket and path there. -/
structure ObjectLocation where
  host : Text
  bucket : Text
  path : Text
  deriving DecidableEq, Repr

/-- `normalize_root`. -/
def normalizeRoot (pathPrefix : Text) : Text :=
  let trimmed := trimMatches '/' pathPrefix
  if trimmed = [] then ['/'] else '/' :: (trimmed ++ ['/'])

/-- What `StagingStore::new` tells the client of the object store about the location. -/
structure StoreTarget where
  endpoint : Text
  bucket : Text
  root : Text

def StagingConfig.storeTarget (cfg : StagingConfig) : StoreTarget :=
  ⟨"https://".toList ++ cfg.endpoint, cfg.bucket, normalizeRoot cfg.pathPrefix⟩

/-- The parts of the location bring no slashes of their own: the endpoint has slashes at most behind
its host, the bucket has none, and the prefix has no two in a row inside. -/
structure StagingConfig.AddressesPlainly (cfg : StagingConfig) : Prop where
  endpoint : cfg.endpoint.rdropWhile (· == '/') ≠ [] ∧ '/' ∉ cfg.endpoint.rdropWhile (· == '/')
  bucket : '/' ∉ cfg.bucket
  pathPrefix : trimMatches '/' cfg.pathPrefix = [] ∨
    [] ∉ (trimMatches '/' cfg.pathPrefix).splitOn '/'

/-- The path of an object as its URL spells it. -/
def StagingConfig.announcedPath (cfg : StagingConfig) (key : Text) : Text :=
  let inner := trimMatches '/' cfg.pathPrefix
  if inner = [] then key else inner ++ '/' :: key

theorem stagingUrlBase_append (cfg : StagingConfig) (key : Text) :
    stagingUrlBase cfg ++ '/' :: key = "s3://".toList ++
      (cfg.endpoint ++ '/' :: (cfg.bucket ++ '/' :: cfg.announcedPath key)) := by
  unfold stagingUrlBase StagingConfig.announcedPath
  by_cases hinner : trimMatches '/' cfg.pathPrefix = []
  · simp only [hinner, if_true, List.append_assoc, List.cons_append]
  · simp only [hinner, if_false, List.append_assoc, List.cons_append]

/-- The root adds the segments of the prefix. -/
theorem segments_normalizeRoot (pathPrefix : Text) :
    segments (normalizeRoot pathPrefix) = segments (trimMatches '/' pathPrefix) := by
  unfold normalizeRoot
  by_cases hinner : trimMatches '/' pathPrefix = []
  · simp only [hinner, if_true]
    decide
  · simp only [hinner, if_false]
    exact segments_between _

/-- Dropping empty segments makes the path no longer, and keeps it where there are none. -/
theorem writtenPath_announcedPath (cfg : StagingConfig) (key : Text) :
    (asDirectory (segments (trimMatches '/' cfg.pathPrefix)) ++ key).length ≤
        (cfg.announcedPath key).length ∧
      (asDirectory (segments (trimMatches '/' cfg.pathPrefix)) ++ key = cfg.announcedPath key ↔
        trimMatches '/' cfg.pathPrefix = [] ∨
          [] ∉ (trimMatches '/' cfg.pathPrefix).splitOn '/') := by
  unfold StagingConfig.announcedPath
  generalize trimMatches '/' cfg.pathPrefix = inner
  by_cases hinner : inner = []
  · subst hinner
    exact ⟨le_of_eq rfl, iff_of_true rfl (Or.inl rfl)⟩
  · simp only [hinner, if_false, false_or, List.length_append, List.length_cons]
    refine ⟨?_, ?_⟩
    · have hlength := length_asDirectory_segments_le inner
      omega
    · rw [← asDirectory_segments_eq_iff, List.append_cons inner '/' key, List.append_left_inj]

/-- A URL that is read as naming the bucket, and no path longer than the one it spells, has nothing
but slashes behind its host. -/
theorem endpoint_of_split {cfg : StagingConfig} {key endpoint path : Text}
    (hsplit : splitStagingUrl (stagingUrlBase cfg ++ '/' :: key) =
      .ok (endpoint, cfg.bucket, path)) (hpath : path.length ≤ (cfg.announcedPath key).length) :
    cfg.endpoint.rdropWhile (· == '/') = endpoint := by
  obtain ⟨hne, hhost, -, -, slashes, tail, hurl, hslashes, htail⟩ := splitStagingUrl_ok hsplit
  rw [stagingUrlBase_append, List.append_right_inj] at hurl
  have hbare : endpoint.rdropWhile (· == '/') = endpoint := by
    rw [List.rdropWhile_eq_self_iff]
    intro hne hlast
    exact hhost (beq_iff_eq.mp hlast ▸ List.getLast_mem hne)
  rcases List.append_eq_append_iff.mp hurl with ⟨more, hend, hmore⟩ | ⟨more, hend, hmore⟩
  · cases more with
    | nil =>
      rw [hend, List.append_nil] at hbare
      rw [hbare, hend, List.append_nil]
    | cons c more =>
      obtain ⟨rfl, -⟩ := List.cons_eq_cons.mp hmore
      exact absurd (hend ▸ List.mem_append_right _ List.mem_cons_self) hhost
  · cases more with
    | nil => rw [hend, List.append_nil, hbare]
    | cons c more =>
      rw [List.cons_append, List.cons.injEq] at hmore
      obtain ⟨rfl, hmore⟩ := hmore
      have hlength := congrArg List.length hmore
      have hshort : tail.length ≤ path.length + 1 := by
        rcases htail with ⟨rfl, -⟩ | rfl
        · exact Nat.zero_le _
        · exact le_of_eq (List.length_cons)
      simp only [List.length_append, List.length_cons] at hlength
      have hrest : more <+: slashes ++ (cfg.bucket ++ tail) := hmore ▸ List.prefix_append _ _
      have hfront : more <+: slashes :=
        List.prefix_of_prefix_length_le hrest (List.prefix_append _ _) (by omega)
      have hall : ∀ x ∈ '/' :: more, x = '/' := by
        intro x hx
        rcases List.mem_cons.mp hx with rfl | hx
        · rfl
        · exact hslashes x (hfront.subset hx)
      rw [hend, List.rdropWhile, List.reverse_append, List.dropWhile_append_of_pos,
        ← List.rdropWhile, hbare]
      intro x hx
      exact beq_iff_eq.mpr (hall x (List.mem_reverse.mp hx))

section Location

/- `endpointHost` is the host that the client of the object store asks for an endpoint, `objectPath`
where it puts a key below its root. -/
variable (endpointHost : Text → Text) (objectPath : Text → Text → Text)

/-- `StagingStore::put`. -/
def StoreTarget.put (target : StoreTarget) (key : Text) : ObjectLocation :=
  ⟨endpointHost target.endpoint, target.bucket, objectPath target.root key⟩

/-- The place that the URL of an object names, by the grammar of `parse_staging_url`. -/
def announcedLocation (cfg : StagingConfig) (key : Text) : Except Error ObjectLocation := do
  let (endpoint, bucket, path) ← splitStagingUrl (stagingUrlBase cfg ++ '/' :: key)
  return ⟨endpointHost ("https://".toList ++ endpoint), bucket, path⟩

/-- Slashes behind an endpoint are not part of its host. -/
def IgnoresTrailingSlashes : Prop :=
  ∀ endpoint slashes : Text, (∀ c ∈ slashes, c = '/') →
    endpointHost ("https://".toList ++ (endpoint ++ slashes)) =
      endpointHost ("https://".toList ++ endpoint)

/-- A plain location is announced at its host, bucket and path. -/
theorem announcedLocation_eq (hignores : IgnoresTrailingSlashes endpointHost) {cfg : StagingConfig}
    (key : Text) (hbucket : cfg.bucket ≠ [])
    (hendpoint : cfg.endpoint.rdropWhile (· == '/') ≠ [] ∧
      '/' ∉ cfg.endpoint.rdropWhile (· == '/')) (hslash : '/' ∉ cfg.bucket) :
    announcedLocation endpointHost cfg key =
      .ok ⟨endpointHost ("https://".toList ++ cfg.endpoint), cfg.bucket,
        cfg.announcedPath key⟩ := by
  have hparts : cfg.endpoint.rdropWhile (· == '/') ++ cfg.endpoint.rtakeWhile (· == '/') =
      cfg.endpoint := List.rdropWhile_append_rtakeWhile
  have hslashes : ∀ c ∈ cfg.endpoint.rtakeWhile (· == '/'), c = '/' := fun c hc ↦
    beq_iff_eq.mp (List.mem_rtakeWhile_imp (p := (· == '/')) hc)
  generalize cfg.endpoint.rdropWhile (· == '/') = host at *
  generalize cfg.endpoint.rtakeWhile (· == '/') = slashes at *
  have hurl : stagingUrlBase cfg ++ '/' :: key = "s3://".toList ++
      (host ++ '/' :: (slashes ++ (cfg.bucket ++ '/' :: cfg.announcedPath key))) := by
    have hshift (more : Text) : slashes ++ '/' :: more = '/' :: (slashes ++ more) := by
      rw [List.eq_replicate_of_mem hslashes, ← List.singleton_append, ← List.append_assoc,
        ← List.replicate_succ', List.replicate_succ, List.cons_append]
    rw [stagingUrlBase_append, ← hparts, List.append_assoc, hshift]
  unfold announcedLocation
  rw [hurl, (splitStagingUrl_of_parts hendpoint.1 hendpoint.2 hslashes hbucket hslash).1, ← hparts,
    hignores host slashes hslashes]
  rfl

/-- An object is announced where it is written exactly when its location addresses it plainly. -/
theorem announced_where_written (cfg : StagingConfig) (key : Text)
    (hignores : IgnoresTrailingSlashes endpointHost)
    (hobject : ∀ root key, objectPath root key = asDirectory (segments root) ++ key)
    (hvalid : validateStaging cfg = .ok ()) :
    announcedLocation endpointHost cfg key =
        .ok (cfg.storeTarget.put endpointHost objectPath key) ↔ cfg.AddressesPlainly := by
  obtain ⟨-, -, hbucket, -, -⟩ := (validateStaging_eq_ok_iff cfg).mp hvalid
  have hpath : objectPath (normalizeRoot cfg.pathPrefix) key =
      asDirectory (segments (trimMatches '/' cfg.pathPrefix)) ++ key := by
    rw [hobject, segments_normalizeRoot]
  have hput : cfg.storeTarget.put endpointHost objectPath key =
      ⟨endpointHost ("https://".toList ++ cfg.endpoint), cfg.bucket,
        asDirectory (segments (trimMatches '/' cfg.pathPrefix)) ++ key⟩ :=
    congrArg (ObjectLocation.mk _ _) hpath
  obtain ⟨hlength, hsame⟩ := writtenPath_announcedPath cfg key
  rw [hput]
  constructor
  · intro h
    have hparsed := h
    unfold announcedLocation at h
    obtain ⟨⟨endpoint, bucket, path⟩, hsplit, hlocation⟩ := except_bind_eq_ok_iff.mp h
    simp only [pure, Except.pure, Except.ok.injEq, ObjectLocation.mk.injEq] at hlocation
    obtain ⟨-, rfl, rfl⟩ := hlocation
    have hendpoint := endpoint_of_split hsplit hlength
    obtain ⟨hne, hhost, -, hslash, -⟩ := splitStagingUrl_ok hsplit
    rw [announcedLocation_eq endpointHost hignores key hbucket
      (hendpoint.symm ▸ ⟨hne, hhost⟩) hslash, Except.ok.injEq, ObjectLocation.mk.injEq] at hparsed
    exact ⟨hendpoint.symm ▸ ⟨hne, hhost⟩, hslash, hsame.mp hparsed.2.2.symm⟩
  · intro hplain
    rw [announcedLocation_eq endpointHost hignores key hbucket hplain.endpoint hplain.bucket,
      hsame.mpr hplain.pathPrefix]

end Location

/-- The host of a URL that is asked over `https`, with its port. -/
def urlHost (url : Text) : Text :=
  (("https://".toList.isPrefixOf? url).getD url).takeWhile fun c ↦ c ∉ ['/', '?', '#']

theorem urlHost_ignoresTrailingSlashes : IgnoresTrailingSlashes urlHost := by
  intro host slashes hslashes
  have hscheme (more : Text) :
      "https://".toList.isPrefixOf? ("https://".toList ++ more) = some more := by
    simp [List.isPrefixOf?_eq_some_iff_append_eq]
  unfold urlHost
  rw [hscheme, hscheme, Option.getD_some, Option.getD_some, List.takeWhile_append]
  have hstop : slashes.takeWhile (fun c ↦ c ∉ ['/', '?', '#']) = [] := by
    cases slashes with
    | nil => rfl
    | cons c rest =>
      rw [hslashes c List.mem_cons_self]
      rfl
  split
  · next hall =>
    have hwhole : host.takeWhile (fun c ↦ decide (c ∉ ['/', '?', '#'])) <+: host :=
      List.takeWhile_prefix _
    rw [hstop, List.append_nil, hwhole.eq_of_length hall]
  · rfl

/-- A trailing slash of the endpoint and slashes around the prefix do no harm. -/
theorem announced_where_written_slashes :
    announcedLocation urlHost ⟨"oss-cn-hangzhou.aliyuncs.com/".toList, ['b'], "/a/p/".toList,
        "ak".toList, "sk".toList, .oss, none⟩ "k".toList =
      .ok (StoreTarget.put urlHost (fun root key ↦ asDirectory (segments root) ++ key)
        (StagingConfig.storeTarget ⟨"oss-cn-hangzhou.aliyuncs.com/".toList, ['b'], "/a/p/".toList,
          "ak".toList, "sk".toList, .oss, none⟩) "k".toList) :=
  (announced_where_written urlHost (fun root key ↦ asDirectory (segments root) ++ key) _ _
    urlHost_ignoresTrailingSlashes (fun _ _ ↦ rfl) (by decide)).mpr
      ⟨by decide, by decide, by decide⟩

/-- A doubled slash inside the prefix is accepted: the object is written without it and announced
with it. -/
theorem written_elsewhere :
    validateStaging ⟨"oss-cn-hangzhou.aliyuncs.com".toList, ['b'], "a//p".toList, "ak".toList,
        "sk".toList, .oss, none⟩ = .ok () ∧
      announcedLocation urlHost ⟨"oss-cn-hangzhou.aliyuncs.com".toList, ['b'], "a//p".toList,
        "ak".toList, "sk".toList, .oss, none⟩ "k".toList =
        .ok ⟨"oss-cn-hangzhou.aliyuncs.com".toList, ['b'], "a//p/k".toList⟩ ∧
      StoreTarget.put urlHost (fun root key ↦ asDirectory (segments root) ++ key)
        (StagingConfig.storeTarget ⟨"oss-cn-hangzhou.aliyuncs.com".toList, ['b'], "a//p".toList,
          "ak".toList, "sk".toList, .oss, none⟩) "k".toList =
        ⟨"oss-cn-hangzhou.aliyuncs.com".toList, ['b'], "a/p/k".toList⟩ :=
  ⟨by decide, by decide +kernel, by decide +kernel⟩

end RelytIngest
