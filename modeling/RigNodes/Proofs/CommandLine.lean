import RigNodes.Proofs.Printing

/-! What the command prints of a document: the document that processing made of it, in a form that
reads back. -/
namespace RigNodes

theorem bind_ok {ε α β : Type} {x : Except ε α} {f : α → Except ε β} {b : β}
    (h : (x >>= f) = .ok b) : ∃ a, x = .ok a ∧ f a = .ok b := by
  cases x with
  | error e => cases h
  | ok a => exact ⟨a, rfl, h⟩

theorem mapError_ok {ε ε' α : Type} {f : ε → ε'} {x : Except ε α} {a : α}
    (h : x.mapError f = .ok a) : x = .ok a := by
  cases x with
  | error e => cases h
  | ok b => exact congrArg Except.ok (Except.ok.inj h)

/-! The command line decides whether the resolver is enabled. -/

theorem Setting.lookup_alter (key : String) (f : Option Setting → Setting)
    (es : List (String × Setting)) :
    (Setting.alter key f es).lookup key = some (f (es.lookup key)) := by
  induction es with
  | nil => simp [alter]
  | cons e es ih =>
      obtain ⟨name, s⟩ := e
      cases h : name == key with
      | true =>
          obtain rfl := eq_of_beq h
          simp [alter]
      | false =>
          have hne : (key == name) = false := by
            rw [← h]
            exact BEq.comm
          simp [alter, h, List.lookup_cons, hne, ih]

/-- A pair that is read from a table has its first part under the first key. -/
theorem Setting.pair_first {α β : Type} {es : List (String × Setting)} {name first second : String}
    {read₁ : Setting → Except SettingsError α} {read₂ : Setting → Except SettingsError β}
    {p : α × β} (h : (Setting.table es).pair name first second read₁ read₂ = .ok p) {v : Setting}
    (hv : es.lookup first = some v) : read₁ v = .ok p.1 := by
  have hfield : (Setting.table es).field? read₁ first =
      ((read₁ v).mapError (·.under first)).map some := by
    rw [field?, get?, entries, hv]
  obtain ⟨a?, hfirst, hrest⟩ := bind_ok h
  obtain ⟨b?, -, hrequired⟩ := bind_ok hrest
  obtain ⟨a, ha, hsecond⟩ := bind_ok hrequired
  obtain ⟨b, -, hpair⟩ := bind_ok hsecond
  cases hpair
  rw [hfield] at hfirst
  cases hread : read₁ v with
  | error e =>
      rw [hread] at hfirst
      cases hfirst
  | ok a' =>
      rw [hread] at hfirst
      cases hfirst
      cases ha
      rfl

theorem Settings.ofSetting_putAt {enabled : Bool} {tree : Setting} {s : Settings}
    (h : Settings.ofSetting (.putAt (.flag enabled) "resolver" [.child "enabled"] tree) = .ok s) :
    s.enabled = enabled := by
  have hput : Setting.putAt (.flag enabled) "resolver" [.child "enabled"] tree =
      .table (Setting.alter "resolver" (fun old => .table (Setting.alter "enabled"
        (fun _ => .flag enabled) (old.getD .nothing).entries)) tree.entries) := by
    have hresolver : "resolver".toLower = "resolver" := by decide +kernel
    have henabled : "enabled".toLower = "enabled" := by decide +kernel
    simp [Setting.putAt, Setting.put, hresolver, henabled]
  rw [hput, ofSetting] at h
  obtain ⟨p, hpair, h⟩ := bind_ok h
  cases h
  have hresolver := Setting.pair_first hpair (Setting.lookup_alter ..)
  have hflag := Setting.pair_first hresolver (Setting.lookup_alter ..)
  exact (Except.ok.inj hflag).symm

theorem Settings.ofLayers_enabled {file : Option (String × String)} {enabled : Bool}
    {s : Settings} (h : Settings.ofLayers file (some enabled) = .ok s) : s.enabled = enabled := by
  cases file with
  | none => exact ofSetting_putAt h
  | some file =>
      obtain ⟨path, text⟩ := file
      unfold ofLayers at h
      cases htext : Toml.ofText? text with
      | none =>
          simp only [htext] at h
          cases h
      | some es =>
          simp only [htext] at h
          exact ofSetting_putAt h

namespace CommandLine

variable {read : String → Id (Except FileFault String)} {path : String} {config : Option String}
  {disable : Bool} {settings : Settings} {d : Document}

theorem loadSettings_disable (h : loadSettings read config true = .ok settings) :
    settings.enabled = false := by
  cases config with
  | none => exact Settings.ofLayers_enabled (mapError_ok h)
  | some file =>
      cases hread : readSettingsFile read file with
      | error e =>
          simp only [loadSettings, bind, hread] at h
          cases h
      | ok layer =>
          simp only [loadSettings, bind, hread] at h
          exact Settings.ofLayers_enabled (mapError_ok h)

theorem resolveFile_eq (hsettings : loadSettings read config disable = .ok settings)
    (hload : Document.ofFile path (read path) = .ok d) :
    resolveFile read path config disable =
      .ok ⟨settings, ((Resolver.new settings.options).process d).1,
        ((Resolver.new settings.options).process d).2⟩ := by
  simp only [resolveFile, bind, hsettings, hload]
  rfl

/-- What processing makes of a document. -/
def resolved (s : Settings) (d : Document) : Document := ((Resolver.new s.options).process d).2

theorem resolved_singles (s : Settings) (d : Document) : (resolved s d).singles = d.singles :=
  Resolver.process_singles _ d

theorem resolved_disabled (h : settings.enabled = false) : resolved settings d = d := by
  have hoptions : (Resolver.new settings.options).options.enabled = false := h
  simp [resolved, Resolver.process, hoptions]

theorem printDocument_output {r : Run} {output : String} {f : FileFormat}
    (hformat : FileFormat.ofName output = .ok f) (htables : r.settings.dumpTable = false) :
    (r.printDocument output).output = printed (r.document.toText f) := by
  unfold Run.printDocument
  simp only [hformat, htables, Bool.false_eq_true, if_false]
  rfl

theorem resolve_output {output : Option String} {f : FileFormat}
    (hsettings : loadSettings read config disable = .ok settings)
    (hload : Document.ofFile path (read path) = .ok d)
    (hformat : FileFormat.ofName (output.getD "json") = .ok f)
    (htables : settings.dumpTable = false) :
    (Id.run (run read (.resolve path config disable output))).output =
      printed ((resolved settings d).toText f) := by
  simp only [run, bind, resolveFile_eq hsettings hload]
  exact printDocument_output hformat htables

/-- With the tables left out, what is printed is the resolved document: reading it gives back what
processing made of the document that was loaded, and that document itself with `--disable`. In YAML
this needs the scalar at the end of the document to be firm, and the text is printed as it is exactly
if it is. -/
theorem resolve_prints {output : Option String} {f : FileFormat}
    (hsettings : loadSettings read config disable = .ok settings)
    (hload : Document.ofFile path (read path) = .ok d)
    (hformat : FileFormat.ofName (output.getD "json") = .ok f)
    (htables : settings.dumpTable = false)
    (hread : ∀ x ∈ d.singles, x.isFinite ∧ x.Rereads)
    (hyaml : f = .yaml →
      Document.ofText .yaml ((resolved settings d).toText .yaml) = .ok (resolved settings d)) :
    ((f = .yaml → (resolved settings d).EndsFirm) →
        Document.ofText f (Id.run (run read (.resolve path config disable output))).output =
          .ok (resolved settings d)) ∧
      (f = .yaml →
        ((Id.run (run read (.resolve path config disable output))).output =
            (resolved settings d).toText .yaml ↔
          (resolved settings d).EndsFirm)) ∧
      (disable = true → resolved settings d = d) := by
  have houtput := resolve_output hsettings hload hformat htables
  refine ⟨fun hfirm => ?_, ?_, ?_⟩
  · rw [houtput]
    cases f with
    | json =>
        apply Document.ofText_printed_json
        rwa [resolved_singles]
    | yaml =>
        rw [(Document.printed_yaml_iff _).mpr (hfirm rfl)]
        exact hyaml rfl
  · rintro rfl
    rw [houtput]
    exact Document.printed_yaml_iff _
  · rintro rfl
    exact resolved_disabled (loadSettings_disable hsettings)

/-- A disk with a file at any path. -/
def disk (content : String) : String → Id (Except FileFault String) := fun _ => pure (.ok content)

/-- A document that ends with the remark on its only node. -/
def remarked (options : String) : Document :=
  .withRoot "t" [⟨.nodes, [⟨.number 0, Shape.origin, options⟩]⟩]

/-- What is printed in YAML of such a document, read from a file. -/
def remarkedOutput (options : String) : String :=
  (Id.run (run (disk ((remarked options).toText .json)) (.resolve "rig" none false (some "yaml")))).output

theorem loadSettings_builtin (read : String → Id (Except FileFault String)) :
    loadSettings read none false = .ok .builtin := rfl

theorem ofPath_rig : FileFormat.ofPath "rig" = .json := by
  have hsplit : "rig".splitOn "/" = ["rig"] := by
    rw [String.splitOn, String.splitOnAux, String.splitOnAux, String.splitOnAux,
      String.splitOnAux]
    decide +kernel
  simp only [FileFormat.ofPath, Path.extension?, Path.fileName?, Path.names, hsplit]
  rfl

theorem rereads_zero : Shape.zero.isFinite ∧ Shape.zero.Rereads :=
  ⟨by decide, "0.0", _, by decide +kernel, rfl, by decide +kernel⟩

theorem remarked_singles (options : String) :
    ∀ x ∈ (remarked options).singles, x.isFinite ∧ x.Rereads := by
  have hsingles : (remarked options).singles = [Shape.zero, Shape.zero, Shape.zero] := rfl
  intro x hx
  rw [hsingles] at hx
  obtain rfl : x = Shape.zero := by simpa using hx
  exact rereads_zero

theorem ofFile_remarked (options : String) :
    Document.ofFile "rig" (disk ((remarked options).toText .json) "rig") = .ok (remarked options) := by
  have hfinite : (remarked options).singles.all Single.isFinite = true :=
    List.all_eq_true.mpr fun x hx => (remarked_singles options x hx).1
  change Document.ofText (.ofPath "rig") ((remarked options).toText .json) = _
  rw [ofPath_rig, Document.ofText_toText_json fun x hx _ => (remarked_singles options x hx).2,
    Json.checked, hfinite]
  rfl

/-- A remark with one line end, and one that is put in quotes for the space at its end. -/
theorem resolve_prints_remarked :
    Document.ofText .yaml (remarkedOutput "a\n") = .ok (resolved .builtin (remarked "a\n")) ∧
      Document.ofText .yaml (remarkedOutput "a ") = .ok (resolved .builtin (remarked "a ")) := by
  have hprints (options : String)
      (hlast : (resolved .builtin (remarked options)).datum.lastText? = some options)
      (hfirm : Yaml.Firm options)
      (hreads : Document.ofText .yaml ((resolved .builtin (remarked options)).toText .yaml) =
        .ok (resolved .builtin (remarked options))) :
      Document.ofText .yaml (remarkedOutput options) = .ok (resolved .builtin (remarked options)) := by
    refine (resolve_prints (loadSettings_builtin _) (ofFile_remarked options) rfl rfl
      (remarked_singles options) fun _ => hreads).1 fun _ s hs => ?_
    rw [hlast] at hs
    obtain rfl := Option.some.inj hs
    exact hfirm
  have hline : Yaml.Firm "a\n" :=
    (Yaml.firm_iff _).mpr (.inr (.inr (.inr ⟨['a'], rfl, [], 'a', rfl, rfl⟩)))
  have hquoted : Yaml.Firm "a " := (Yaml.firm_iff _).mpr (.inl (by decide))
  exact ⟨hprints _ rfl hline (by decide +kernel), hprints _ rfl hquoted (by decide +kernel)⟩

/-- A second line end at the end of a remark is lost: the file is read, its text in YAML would read
back, and what is printed is another document. -/
theorem resolve_loses_line_end :
    loadSettings (disk ((remarked "a\n\n").toText .json)) none false = .ok .builtin ∧
      Document.ofFile "rig" (disk ((remarked "a\n\n").toText .json) "rig") =
        .ok (remarked "a\n\n") ∧
      (∀ x ∈ (remarked "a\n\n").singles, x.isFinite ∧ x.Rereads) ∧
      Document.ofText .yaml ((resolved .builtin (remarked "a\n\n")).toText .yaml) =
        .ok (resolved .builtin (remarked "a\n\n")) ∧
      Document.ofText .yaml (remarkedOutput "a\n\n") = .ok (resolved .builtin (remarked "a\n")) ∧
      resolved .builtin (remarked "a\n") ≠ resolved .builtin (remarked "a\n\n") := by
  refine ⟨rfl, ofFile_remarked _, remarked_singles _, by decide +kernel, ?_, by decide +kernel⟩
  rw [remarkedOutput, resolve_output (loadSettings_builtin _) (ofFile_remarked _) rfl rfl]
  decide +kernel

end CommandLine

end RigNodes
