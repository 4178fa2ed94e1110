/-
  Mnet.StaticFiles

  `static_handler` of `mnet_handlers.c`: which file a request for a static path
  is answered with.

  `realpath`, the files and `malloc` are the system's; `realpath` is only known
  to return canonical paths.  The handler compares two of them byte by byte,
  with one look at the byte behind the root, or at the root's last one; on
  canonical paths that is a comparison of the names they consist of.  The log
  is left out.
-/

import Mnet.Lib.Paths
import Mnet.Router

namespace Mnet

-- ============================================================================
-- The system
-- ============================================================================

/-- What `fseek`, `ftell` and `fread` make of an open file. -/
structure OpenFile where
  seekEnd : Bool := true
  tell : Int
  contents : Bytes

/-- The calls of the handler: `realpath` and `fopen`, none for NULL, and whether
    `malloc` succeeds. -/
structure FileSystem where
  realpath : Bytes → Option Bytes
  fopen : Bytes → Option OpenFile
  malloc : Nat → Bool := fun _ => true

/-- A name in a canonical path. -/
structure PathName (c : Bytes) : Prop where
  isName : Paths.IsName SLASH c
  noNul : (0 : Byte) ∉ c
  notDots : c ≠ ascii "." ∧ c ≠ ascii ".."

/-- An absolute path of names separated by single slashes, none of them `.` or
    `..`, without a slash at its end unless it is the root. -/
def Canonical (path : Bytes) : Prop :=
  ∃ names : List Bytes, (∀ c ∈ names, PathName c) ∧ path = Paths.text SLASH names

/-- The names of a path. -/
def components (path : Bytes) : List Bytes := Paths.components SLASH path

/-- What POSIX says of `realpath`. -/
def FileSystem.Posix (fs : FileSystem) : Prop :=
  ∀ path real, fs.realpath path = some real → Canonical real

-- ============================================================================
-- The handler
-- ============================================================================

/-- `static_config_t`. -/
structure StaticConfig where
  urlPrefix : Bytes
  fsPath : Bytes

/-- `strncmp(a, b, n) == 0`. -/
def strncmpEq : Bytes → Bytes → Nat → Bool
  | _, _, 0 => true
  | [], [], _ => true
  | a :: s, b :: t, n + 1 => a == b && strncmpEq s t n
  | _, _, _ => false

/-- `s[i]` of a string, with its NUL. -/
def charAt (s : Bytes) (i : Nat) : Byte := s[i]?.getD 0

/-- The test of `static_handler` that the resolved path is the root or lies
    underneath it. -/
def inside (real baseReal : Bytes) : Bool :=
  let baseLen := baseReal.length
  strncmpEq real baseReal baseLen &&
    (charAt real baseLen == 0 || charAt real baseLen == SLASH ||
      charAt baseReal (baseLen - 1) == SLASH)

def mimeTypes : List (Bytes × Bytes) :=
  [(ascii "html", ascii "text/html"), (ascii "htm", ascii "text/html"),
   (ascii "css", ascii "text/css"), (ascii "js", ascii "application/javascript"),
   (ascii "json", ascii "application/json"), (ascii "png", ascii "image/png"),
   (ascii "jpg", ascii "image/jpeg"), (ascii "jpeg", ascii "image/jpeg"),
   (ascii "gif", ascii "image/gif"), (ascii "svg", ascii "image/svg+xml"),
   (ascii "ico", ascii "image/x-icon"), (ascii "txt", ascii "text/plain"),
   (ascii "xml", ascii "application/xml"), (ascii "pdf", ascii "application/pdf")]

/-- `mime_type`: what stands behind the last dot, in any case, decides. -/
def mimeType (path : Bytes) : Bytes :=
  if 46 ∈ path then
    let ext := (path.reverse.takeWhile (· ≠ 46)).reverse
    match mimeTypes.find? fun entry => strcaseeq ext entry.1 with
    | some (_, type) => type
    | none => ascii "application/octet-stream"
  else ascii "application/octet-stream"

/-- `rel`: the request path behind as many bytes as the prefix has, less one
    slash.  `path` is the memory at `req->path`. -/
def relativePath (urlPrefix path : Bytes) : Bytes :=
  skipSlash (cstr (path.drop urlPrefix.length))

/-- The path the handler looks up, unless it does not fit `fs_path`. -/
def requestedPath (cfg : StaticConfig) (path : Bytes) : Option Bytes :=
  let full := cfg.fsPath ++ ascii "/" ++ relativePath cfg.urlPrefix path
  if full.length ≥ 4096 then none else some full

/-- A response, and the paths given to `fopen` on the way to it. -/
structure Served where
  response : MnetResponse
  opened : List Bytes := []

/-- The handler from `fopen` on. -/
def serveFile (fs : FileSystem) (fsPath real : Bytes) : Served :=
  match fs.fopen real with
  | none => { response := mnetError 404 (ascii "not found"), opened := [real] }
  | some file =>
      if !file.seekEnd then { response := mnetError 404 (ascii "not found"), opened := [real] }
      else if file.tell < 0 then
        { response := mnetError 404 (ascii "not found"), opened := [real] }
      else if !fs.malloc (file.tell.toNat + 1) then
        { response := mnetError 500 (ascii "internal server error"), opened := [real] }
      else
        let data := file.contents.take file.tell.toNat
        { response :=
            { status := 200, contentType := some (mimeType fsPath), body := some data,
              bodyLength := data.length }
          opened := [real] }

/-- `static_handler`; `cfg` is the `user_data` of the request. -/
def staticHandler (fs : FileSystem) (cfg : Option StaticConfig) (req : MnetRequest) : Served :=
  match cfg with
  | none => { response := mnetError 500 (ascii "internal server error") }
  | some cfg =>
      match requestedPath cfg req.path with
      | none => { response := mnetError 404 (ascii "not found") }
      | some fsPath =>
          match fs.realpath fsPath with
          | none => { response := mnetError 404 (ascii "not found") }
          | some real =>
              match fs.realpath cfg.fsPath with
              | none => { response := mnetError 404 (ascii "not found") }
              | some baseReal =>
                  if !inside real baseReal then
                    { response := mnetError 403 (ascii "forbidden") }
                  else serveFile fs fsPath real

-- ============================================================================
-- The test on names
-- ============================================================================

theorem strncmpEq_length {a b : Bytes} : strncmpEq a b b.length = true ↔ b <+: a := by
  induction b generalizing a with
  | nil =>
      rw [List.length_nil, strncmpEq.eq_def]
      exact iff_of_true rfl List.nil_prefix
  | cons y b ih =>
      cases a with
      | nil =>
          rw [List.length_cons, strncmpEq.eq_def]
          simp
      | cons x a =>
          rw [List.length_cons, strncmpEq.eq_def, Bool.and_eq_true, beq_iff_eq, ih,
            List.cons_prefix_cons, eq_comm]

theorem Canonical.components {names : List Bytes} (h : ∀ c ∈ names, PathName c) :
    components (Paths.text SLASH names) = names :=
  Paths.components_text fun c hc => (h c hc).isName

theorem zero_not_mem_below {names : List Bytes} (h : ∀ c ∈ names, PathName c) :
    (0 : Byte) ∉ Paths.below SLASH names := by
  intro hmem
  obtain ⟨c, hc, hin⟩ := List.mem_flatMap.mp hmem
  rcases List.mem_cons.mp hin with hzero | hzero
  · exact absurd hzero (by decide)
  · exact (h c hc).noNul hzero

/-- Without a slash at the end of the root, the byte behind it decides. -/
theorem inside_append_iff {base t : Bytes} (hbase : ∀ d ∈ base.getLast?, d ≠ SLASH)
    (hne : base ≠ []) (h0 : (0 : Byte) ∉ base ++ t) :
    inside (base ++ t) base = true ↔ ∀ d ∈ t.head?, d = SLASH := by
  have hlast : charAt base (base.length - 1) ≠ SLASH := by
    rw [charAt, ← List.getLast?_eq_getElem?, List.getLast?_eq_some_getLast hne, Option.getD_some]
    exact hbase _ (List.getLast?_eq_some_getLast hne)
  have hnext : charAt (base ++ t) base.length = t.head?.getD 0 := by
    rw [charAt, List.getElem?_append_right (Nat.le_refl _), Nat.sub_self, ← List.head?_eq_getElem?]
  have hcmp : strncmpEq (base ++ t) base base.length = true :=
    strncmpEq_length.mpr (List.prefix_append base t)
  rw [inside]
  simp only [hcmp, hnext, Bool.true_and, Bool.or_eq_true, beq_iff_eq, hlast, or_false]
  cases t with
  | nil => simp
  | cons d t =>
      have hd : d ≠ 0 := by
        rintro rfl
        exact h0 (by simp)
      simp [hd]

/-- Every path lies beneath `/`. -/
theorem inside_root (names : List Bytes) : inside (Paths.text SLASH names) [SLASH] = true := by
  have hroot : [SLASH] <+: Paths.text SLASH names := by
    rw [Paths.text]
    split
    · exact List.prefix_refl _
    · next hne =>
      obtain ⟨c, cs, rfl⟩ := List.exists_cons_of_ne_nil hne
      exact ⟨_, rfl⟩
  have hcmp : strncmpEq (Paths.text SLASH names) [SLASH] 1 = true :=
    (@strncmpEq_length (Paths.text SLASH names) [SLASH]).mpr hroot
  show (strncmpEq (Paths.text SLASH names) [SLASH] 1 && _) = true
  rw [hcmp, Bool.true_and, Bool.or_eq_true]
  exact .inr rfl

theorem below_ne_nil {names : List Bytes} (h : names ≠ []) : Paths.below SLASH names ≠ [] := by
  obtain ⟨c, cs, rfl⟩ := List.exists_cons_of_ne_nil h
  exact List.cons_ne_nil _ _

/-- `/` has the names of no other path at its front. -/
theorem ne_nil_of_below_isPrefix {bs rs : List Bytes} (hbs : ∀ c ∈ bs, Paths.IsName SLASH c)
    (hne : bs ≠ []) (h : Paths.below SLASH bs <+: Paths.text SLASH rs) : rs ≠ [] := by
  rintro rfl
  obtain ⟨c, cs, rfl⟩ := List.exists_cons_of_ne_nil hne
  have hlen := h.length_le
  have hc := List.length_pos_iff.mpr (hbs c (List.mem_cons_self ..)).ne_nil
  have hone : (Paths.text SLASH ([] : List Bytes)).length = 1 := rfl
  rw [Paths.below_cons, List.length_cons, List.length_append] at hlen
  omega

/-- The test compares the names of the two paths. -/
theorem inside_iff {real baseReal : Bytes} (hreal : Canonical real) (hbase : Canonical baseReal) :
    inside real baseReal = true ↔ components baseReal <+: components real := by
  obtain ⟨rs, hrs, rfl⟩ := hreal
  obtain ⟨bs, hbs, rfl⟩ := hbase
  rw [Canonical.components hrs, Canonical.components hbs]
  have hrs' := fun c hc => (hrs c hc).isName
  have hbs' := fun c hc => (hbs c hc).isName
  rcases eq_or_ne bs [] with rfl | hbne
  · exact iff_of_true (inside_root rs) List.nil_prefix
  · rw [Paths.isPrefix_iff hbs' hrs']
    have hbase : Paths.text SLASH bs = Paths.below SLASH bs := if_neg hbne
    have hne := below_ne_nil hbne
    rw [hbase]
    constructor
    · intro h
      have hcmp : Paths.below SLASH bs <+: Paths.text SLASH rs := by
        rw [inside, Bool.and_eq_true] at h
        exact strncmpEq_length.mp h.1
      have hreal : Paths.text SLASH rs = Paths.below SLASH rs :=
        if_neg (ne_nil_of_below_isPrefix hbs' hbne hcmp)
      rw [hreal] at h hcmp
      obtain ⟨t, ht⟩ := hcmp
      refine ⟨t, ht.symm, (inside_append_iff (Paths.getLast?_below hbs') hne ?_).mp ?_⟩
      · rw [ht]
        exact zero_not_mem_below hrs
      · rw [ht]
        exact h
    · rintro ⟨t, ht, hsep⟩
      have hrne : rs ≠ [] := by
        rintro rfl
        exact hne (List.append_eq_nil_iff.mp ht.symm).1
      have hreal : Paths.text SLASH rs = Paths.below SLASH bs ++ t := by
        rw [Paths.text, if_neg hrne, ht]
      rw [hreal, inside_append_iff (Paths.getLast?_below hbs') hne]
      · exact hsep
      · rw [← ht]
        exact zero_not_mem_below hrs

-- ============================================================================
-- What is opened
-- ============================================================================

/-- `f` is the file that is asked for, and it is the root or lies beneath
    it. -/
def UnderRoot (fs : FileSystem) (cfg : StaticConfig) (path f : Bytes) : Prop :=
  ∃ fsPath baseReal, requestedPath cfg path = some fsPath ∧ fs.realpath fsPath = some f ∧
    fs.realpath cfg.fsPath = some baseReal ∧ components baseReal <+: components f

/-- The handler opens the file that is asked for when it is the root or lies
    beneath it, and no other; where there is none, it answers 403 or 404. -/
structure Confined (fs : FileSystem) (cfg : StaticConfig) (req : MnetRequest) : Prop where
  opens : ∀ f ∈ (staticHandler fs (some cfg) req).opened, UnderRoot fs cfg req.path f
  refuses : (∀ f, ¬ UnderRoot fs cfg req.path f) →
    (staticHandler fs (some cfg) req).opened = [] ∧
      ((staticHandler fs (some cfg) req).response.status = 403 ∨
        (staticHandler fs (some cfg) req).response.status = 404)

theorem serveFile_opened (fs : FileSystem) (fsPath real : Bytes) :
    (serveFile fs fsPath real).opened = [real] := by
  rw [serveFile.eq_def]
  repeat' split
  all_goals rfl

/-- The three ways a configured handler goes: it answers 404 as a path does not
    resolve, or 403, or opens the file. -/
theorem staticHandler_cases {fs : FileSystem} (hfs : fs.Posix) (cfg : StaticConfig)
    (req : MnetRequest) :
    staticHandler fs (some cfg) req = { response := mnetError 404 (ascii "not found") } ∨
    staticHandler fs (some cfg) req = { response := mnetError 403 (ascii "forbidden") } ∨
    ∃ fsPath f, UnderRoot fs cfg req.path f ∧
      staticHandler fs (some cfg) req = serveFile fs fsPath f := by
  simp only [staticHandler]
  cases hpath : requestedPath cfg req.path with
  | none => exact .inl rfl
  | some fsPath =>
      simp only
      cases hreal : fs.realpath fsPath with
      | none => exact .inl rfl
      | some real =>
          simp only
          cases hbase : fs.realpath cfg.fsPath with
          | none => exact .inl rfl
          | some baseReal =>
              simp only
              cases hinside : inside real baseReal with
              | false => exact .inr (.inl rfl)
              | true =>
                  have hunder := (inside_iff (hfs _ _ hreal) (hfs _ _ hbase)).mp hinside
                  exact .inr (.inr ⟨fsPath, real, ⟨fsPath, baseReal, hpath, hreal, hbase, hunder⟩,
                    rfl⟩)

/-- Whatever is asked for, the handler stays beneath its root, and the test it
    makes on two canonical paths compares their names. -/
theorem staticHandler_confined {fs : FileSystem} (hfs : fs.Posix) :
    (∀ real baseReal, Canonical real → Canonical baseReal →
      (inside real baseReal = true ↔ components baseReal <+: components real)) ∧
    ∀ (cfg : StaticConfig) (req : MnetRequest), Confined fs cfg req := by
  refine ⟨fun _ _ => inside_iff, fun cfg req => ?_⟩
  obtain h | h | ⟨fsPath, f, hunder, h⟩ := staticHandler_cases hfs cfg req
  · exact { opens := by simp [h], refuses := fun _ => by simp [h, mnetError, mnetStatus] }
  · exact { opens := by simp [h], refuses := fun _ => by simp [h, mnetError, mnetStatus] }
  · refine { opens := fun g hg => ?_, refuses := fun hnone => absurd hunder (hnone f) }
    rw [h, serveFile_opened, List.mem_singleton] at hg
    rw [hg]
    exact hunder

/-- A root `/srv/www` with one file, and a sibling `/srv/www2`. -/
def siteFiles : FileSystem where
  realpath path :=
    if path = ascii "/srv/www" then some (ascii "/srv/www")
    else if path = ascii "/srv/www/a.txt" then some (ascii "/srv/www/a.txt")
    else if path = ascii "/srv/www/../www2/a.txt" then some (ascii "/srv/www2/a.txt")
    else none
  fopen _ := some { tell := 2, contents := ascii "hi" }

theorem siteFiles_posix : siteFiles.Posix := by
  have hnames : ∀ c ∈ [ascii "srv", ascii "www", ascii "www2", ascii "a.txt"], PathName c := by
    intro c hc
    have h : c ≠ [] ∧ SLASH ∉ c ∧ (0 : Byte) ∉ c ∧ c ≠ ascii "." ∧ c ≠ ascii ".." := by
      revert c
      decide
    exact ⟨⟨h.1, h.2.1⟩, h.2.2.1, h.2.2.2⟩
  intro path real h
  simp only [siteFiles] at h
  split at h
  · rw [← Option.some.inj h]
    exact ⟨[ascii "srv", ascii "www"], fun c hc => hnames c (by revert c; decide), by decide⟩
  · split at h
    · rw [← Option.some.inj h]
      exact ⟨[ascii "srv", ascii "www", ascii "a.txt"], fun c hc => hnames c (by revert c; decide),
        by decide⟩
    · split at h
      · rw [← Option.some.inj h]
        exact ⟨[ascii "srv", ascii "www2", ascii "a.txt"],
          fun c hc => hnames c (by revert c; decide), by decide⟩
      · simp at h

theorem staticHandler_confined_siteFiles :
    siteFiles.Posix ∧
    (∀ real baseReal, Canonical real → Canonical baseReal →
      (inside real baseReal = true ↔ components baseReal <+: components real)) ∧
    ∀ (cfg : StaticConfig) (req : MnetRequest), Confined siteFiles cfg req :=
  ⟨siteFiles_posix, staticHandler_confined siteFiles_posix⟩

/-- The sibling begins with the text of the root, and is refused. -/
example : (staticHandler siteFiles (some ⟨ascii "/static", ascii "/srv/www"⟩)
    { method := ascii "GET", path := ascii "/static/../www2/a.txt" }).response.status = 403 := by
  decide +kernel

end Mnet
