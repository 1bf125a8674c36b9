import RelytIngest.Error
import RelytIngest.Foundations.TextCut

/-!
# The staging location

A `StagingConfig` names an object store, a bucket and a prefix, with the credentials that the job
options carry. `classifyEndpoint` knows the stores it can sign for by the name of their host, and
`validateStaging` checks a location wherever it came from (`validateStaging_eq_ok_iff`).
-/

set_option autoImplicit false
set_option relaxedAutoImplicit false

namespace RelytIngest

open Foundations

inductive StagingService
  | oss
  | s3
  deriving DecidableEq, Repr

structure StagingConfig where
  endpoint : Text
  bucket : Text
  /-- The prefix under which all staged files live. -/
  pathPrefix : Text
  accessKeyId : Text
  secretAccessKey : Text
  service : StagingService
  region : Option Text
  deriving DecidableEq, Repr

/-! ### The endpoints the client knows -/

/-- A row of `KNOWN_ENDPOINTS`: how the host begins and may end, and the store it is. -/
structure KnownEndpoint where
  front : Text
  suffixes : List Text
  service : StagingService

def KNOWN_ENDPOINTS : List KnownEndpoint :=
  [⟨"s3".toList, [".amazonaws.com".toList, ".amazonaws.com.cn".toList], .s3⟩,
    ⟨"internal.s3".toList, [".amazonaws.com".toList, ".amazonaws.com.cn".toList], .s3⟩,
    ⟨"oss".toList, [".aliyuncs.com".toList], .oss⟩,
    ⟨"cos".toList, [".myqcloud.com".toList], .s3⟩,
    ⟨"ks3".toList, [".ksyuncs.com".toList], .s3⟩,
    ⟨"s3".toList, [".ufileos.com".toList], .s3⟩,
    ⟨"tos-s3".toList, [".volces.com".toList, ".ivolces.com".toList], .s3⟩]

/-- What a host of a known shape says: the store and, unless it is OSS, the region in its middle. -/
def endpointOf (service : StagingService) (middle : Text) :
    Option (StagingService × Option Text) :=
  match service with
  | .oss => some (.oss, none)
  | .s3 =>
    match middle with
    | [] => some (.s3, some "us-east-1".toList)
    | c :: region =>
      if c ≠ '.' ∧ c ≠ '-' then none
      else if region = [] ∨ ¬region.all fun c ↦ c.isAlphanum || c == '-' then none
      else some (.s3, some region)

/-- The first suffix that the rest of the host ends with decides, also where it decides for none. -/
def classifySuffixes (service : StagingService) (afterFront : Text) :
    List Text → Option (Option (StagingService × Option Text))
  | [] => none
  | suffix :: suffixes =>
    match suffix.isSuffixOf? afterFront with
    | some middle => some (endpointOf service middle)
    | none => classifySuffixes service afterFront suffixes

def classifyHost (host : Text) : List KnownEndpoint → Option (StagingService × Option Text)
  | [] => none
  | row :: rows =>
    match row.front.isPrefixOf? host with
    | none => classifyHost host rows
    | some afterFront =>
      match classifySuffixes row.service afterFront row.suffixes with
      | some verdict => verdict
      | none => classifyHost host rows

/-- `classify_endpoint`: the scheme and the port are not part of the name. -/
def classifyEndpoint (endpoint : Text) : Option (StagingService × Option Text) :=
  let host := (("https://".toList.isPrefixOf? endpoint).or
    ("http://".toList.isPrefixOf? endpoint)).getD endpoint
  let host := ((rsplitOnce ':' host).map Prod.fst).getD host
  classifyHost host KNOWN_ENDPOINTS

def deriveRegion (endpoint : Text) : Option Text :=
  (classifyEndpoint endpoint).bind Prod.snd

/-- A store that is signed for as S3 has a region. -/
theorem endpointOf_region {service : StagingService} {middle : Text}
    {verdict : StagingService × Option Text} (h : endpointOf service middle = some verdict)
    (hs3 : verdict.1 = .s3) : verdict.2 ≠ none := by
  unfold endpointOf at h
  split at h
  · obtain rfl := Option.some.inj h
    exact StagingService.noConfusion hs3
  · split at h
    · obtain rfl := Option.some.inj h
      exact Option.some_ne_none _
    · split_ifs at h
      obtain rfl := Option.some.inj h
      exact Option.some_ne_none _

theorem classifySuffixes_region {service : StagingService} {afterFront : Text}
    {suffixes : List Text} {verdict : StagingService × Option Text}
    (h : classifySuffixes service afterFront suffixes = some (some verdict))
    (hs3 : verdict.1 = .s3) : verdict.2 ≠ none := by
  induction suffixes with
  | nil => simp [classifySuffixes] at h
  | cons suffix suffixes ih =>
    rw [classifySuffixes] at h
    split at h
    · exact endpointOf_region (Option.some.inj h) hs3
    · exact ih h

theorem classifyHost_region {host : Text} {rows : List KnownEndpoint}
    {verdict : StagingService × Option Text} (h : classifyHost host rows = some verdict)
    (hs3 : verdict.1 = .s3) : verdict.2 ≠ none := by
  induction rows with
  | nil => simp [classifyHost] at h
  | cons row rows ih =>
    rw [classifyHost] at h
    split at h
    · exact ih h
    · split at h
      · next hverdict =>
        subst h
        exact classifySuffixes_region hverdict hs3
      · exact ih h

theorem classifyEndpoint_region {endpoint : Text} {region : Option Text}
    (h : classifyEndpoint endpoint = some (.s3, region)) : region ≠ none :=
  classifyHost_region h rfl

/-! ### Validation -/

/-- `resolve_region`: the region given, else the one of the endpoint. -/
def StagingConfig.resolveRegion (cfg : StagingConfig) : Option Text :=
  cfg.region.or (deriveRegion cfg.endpoint)

/-- The check that `validate_staging` makes on each of the two credentials. -/
def validateCredential (name : String) (value : Text) : Except Error Unit :=
  if value = [] then .error (.config ("staging " ++ name ++ " is empty"))
  else
    match value.find? fun c ↦ c == ',' || c == '"' with
    | some bad =>
      .error (.config ("staging " ++ name ++ " contains `" ++ bad.toString ++
        "`, which would corrupt the job options list"))
    | none => .ok ()

def validateStaging (cfg : StagingConfig) : Except Error Unit := do
  validateCredential "access_key_id" cfg.accessKeyId
  validateCredential "secret_access_key" cfg.secretAccessKey
  if cfg.bucket = [] ∨ cfg.endpoint = [] then
    .error (.config "staging bucket/endpoint must be set")
  else if cfg.service = .s3 ∧ cfg.resolveRegion = none then
    .error (.config ("staging service is S3 but no region was given and none can be derived " ++
      "from endpoint `" ++ String.ofList cfg.endpoint ++ "`; set StagingConfig.region " ++
      "(S3-compatible stores like MinIO/R2 need it explicitly)"))
  else .ok ()

/-- A credential that is accepted is not empty and has no comma and no double quote in it. -/
theorem validateCredential_eq_ok_iff (name : String) (value : Text) :
    validateCredential name value = .ok () ↔ value ≠ [] ∧ ',' ∉ value ∧ '"' ∉ value := by
  unfold validateCredential
  by_cases hempty : value = []
  · simp [hempty]
  rw [if_neg hempty]
  split
  · next bad hbad =>
    refine iff_of_false (by simp) fun h ↦ ?_
    have hmem := List.mem_of_find?_eq_some hbad
    have hrejected := List.find?_some hbad
    simp only [Bool.or_eq_true, beq_iff_eq] at hrejected
    rcases hrejected with rfl | rfl
    · exact h.2.1 hmem
    · exact h.2.2 hmem
  · next hnone =>
    rw [List.find?_eq_none] at hnone
    exact iff_of_true rfl ⟨hempty, fun hmem ↦ hnone ',' hmem (by decide),
      fun hmem ↦ hnone '"' hmem (by decide)⟩

/-- What a location has to have to be accepted. -/
theorem validateStaging_eq_ok_iff (cfg : StagingConfig) :
    validateStaging cfg = .ok () ↔
      validateCredential "access_key_id" cfg.accessKeyId = .ok () ∧
        validateCredential "secret_access_key" cfg.secretAccessKey = .ok () ∧
        cfg.bucket ≠ [] ∧ cfg.endpoint ≠ [] ∧ (cfg.service = .s3 → cfg.resolveRegion ≠ none) := by
  unfold validateStaging
  cases haccess : validateCredential "access_key_id" cfg.accessKeyId with
  | error err => simp [bind, Except.bind]
  | ok _ =>
    cases hsecret : validateCredential "secret_access_key" cfg.secretAccessKey with
    | error err => simp [bind, Except.bind]
    | ok _ =>
      show (if cfg.bucket = [] ∨ cfg.endpoint = [] then _ else _) = _ ↔ _
      by_cases hset : cfg.bucket = [] ∨ cfg.endpoint = []
      · rw [if_pos hset]
        refine iff_of_false (by simp) fun h ↦ ?_
        rcases hset with hbucket | hendpoint
        · exact h.2.2.1 hbucket
        · exact h.2.2.2.1 hendpoint
      rw [if_neg hset]
      rw [not_or] at hset
      by_cases hregion : cfg.service = .s3 ∧ cfg.resolveRegion = none
      · rw [if_pos hregion]
        exact iff_of_false (by simp) fun h ↦ h.2.2.2.2 hregion.1 hregion.2
      · rw [if_neg hregion]
        exact iff_of_true rfl ⟨rfl, rfl, hset.1, hset.2, fun hs3 hnone ↦ hregion ⟨hs3, hnone⟩⟩

end RelytIngest
