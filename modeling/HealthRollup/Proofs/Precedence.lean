import HealthRollup.Config.Launch
import HealthRollup.Proofs.Records
import Mathlib.Data.List.Forall2

/-! What settings are in force. Every address that is given anywhere is read, those of the environment first
and those of flags after them, and the first that cannot be read ends the start; then field by field a flag
wins over a variable, and a variable over the standard. -/
namespace HealthRollup

theorem Fields.put_of_get? {k : String} {v : Value} {fs : Fields} (hfs : Ordered fs)
    (h : get? k fs = some v) : put k v fs = fs := by
  refine ordered_ext _ _ (ordered_put k v fs hfs) hfs fun j => ?_
  rw [get?_put]
  split
  · rename_i hj
    rw [← hj,h]
  · rfl

theorem Value.orElse_of_ne {v : Value} (h : v ≠ .null) (w : Value) : v.orElse w = v := by
  cases v with
  | null => exact absurd rfl h
  | bool | num | text | list | record => rfl

namespace Settings
open Fields

theorem amend_cons {fs : Fields} {k : String} {w : Value} (hfs : Ordered fs) (hk : get? k fs = some w)
    (v : Value) (changes : Fields) :
    amend fs ((k,v)::changes) = amend (put k (v.orElse w) fs) changes := by
  by_cases hv : v = .null
  · subst hv
    rw [Value.orElse_null,put_of_get? hfs hk]
    rfl
  · have hkept : (v != .null) = true := bne_iff_ne.mpr hv
    simp only [amend,List.filter_cons,hkept,if_true,replace,hk,Option.isSome_some,Value.orElse_of_ne hv]

end Settings

namespace Launch
open Fields

/-- The text of an address: that of a flag, else that of a variable, else the standard one. An empty text
does not count as given. -/
def winning (flag : Option Argument) (env : Environment) (name standard : String) : String :=
  (Argument.given? flag).getD ((env.given? name).getD standard)

/-- Every address that is read, in the order of reading. A variable is read whether or not a flag wins. -/
def consulted (fs : Flags) (env : Environment) : List String :=
  winning none env "HEALTHSCOPE_ENDPOINT_ADDR" ":80"::winning none env "HEALTHSCOPE_METRICS_ADDR" ":8080"::
    ((Argument.given? fs.endpoint).toList++(Argument.given? fs.metrics).toList)

def fields (space kubeconfig : Value) (endpoint liveness : Address) : Fields :=
  [("aggregation_period",.num Settings.standard.period),
    ("default_probe_interval",.num Settings.standard.interval),
    ("endpoint_host",.text endpoint.host),("endpoint_port",.int endpoint.port),
    ("kubeconfig",kubeconfig),
    ("liveness_host",.text liveness.host),("liveness_port",.int liveness.port),
    ("namespace",space)]

/-- Field by field a flag wins over a variable that is not empty, even if the flag's own value is empty, and
a variable over the standard. -/
def inForce (fs : Flags) (env : Environment) (endpoint liveness : Address) : Fields :=
  fields ((argumentValue fs.space).orElse (.text ((env.given? "KUBERNETES_NAMESPACE").getD "default")))
    ((argumentValue fs.kubeconfig).orElse (Settings.textOrNull (env.given? "KUBECONFIG"))) endpoint liveness

theorem ordered_fields (s k : Value) (e l : Address) : Ordered (fields s k e l) := by
  have hkeys : keys (fields s k e l) = keys Settings.standard.toFields := rfl
  rw [Ordered,hkeys]
  exact Settings.toFields_ordered _

@[simp] theorem put_fields_space (s k v : Value) (e l : Address) :
    put "namespace" v (fields s k e l) = fields v k e l := rfl
@[simp] theorem put_fields_kubeconfig (s k v : Value) (e l : Address) :
    put "kubeconfig" v (fields s k e l) = fields s v e l := rfl

theorem mapM_read_cons (a : String) (as : List String) : (a::as).mapM Address.read =
    match Address.read a with
    | .ok b => (as.mapM Address.read).map (b::·)
    | .error e => .error e := by
  rw [List.mapM_cons]
  cases Address.read a with
  | error e => rfl
  | ok b => cases as.mapM Address.read <;> rfl

theorem mapM_read_isOk_iff (as : List String) :
    (∃ bs, as.mapM Address.read = .ok bs) ↔ ∀ a ∈ as, ∃ b, Address.read a = .ok b := by
  induction as with
  | nil => simp [pure,Except.pure]
  | cons a as ih =>
    rw [mapM_read_cons,List.forall_mem_cons,← ih]
    cases Address.read a with
    | error e => simp
    | ok b => cases as.mapM Address.read <;> simp [Except.map]

/-- Of two lists that differ only where both can be read, the first that cannot be read is the same. -/
theorem mapM_read_error_congr {as as' : List String}
    (h : List.Forall₂ (fun a a' => a = a' ∨
      (∃ b, Address.read a = .ok b) ∧ ∃ b, Address.read a' = .ok b) as as') (e : AddressFault) :
    as.mapM Address.read = .error e ↔ as'.mapM Address.read = .error e := by
  have hmap (x : Except AddressFault (List Address)) (b : Address) :
      x.map (b::·) = .error e ↔ x = .error e := by
    cases x <;> simp [Except.map]
  induction h with
  | nil => rfl
  | @cons a a' as as' h _ ih =>
    rw [mapM_read_cons,mapM_read_cons]
    rcases h with rfl | ⟨⟨b,hb⟩,b',hb'⟩
    · cases Address.read a with
      | error f => rfl
      | ok b => simp only [hmap,ih]
    · simp only [hb,hb',hmap,ih]

theorem addressFields_cases (host port : String) (flag : Option Argument) :
    (∃ bs changes, (Argument.given? flag).toList.mapM Address.read = .ok bs ∧
      addressFields host port flag = .ok changes) ∨
    ∃ e, (Argument.given? flag).toList.mapM Address.read = .error e ∧
      addressFields host port flag = .error (.address e) := by
  cases hflag : Argument.given? flag with
  | none => exact .inl ⟨[],[],rfl,by simp only [addressFields,hflag]⟩
  | some s =>
    rw [Option.toList_some,mapM_read_cons]
    cases hs : Address.read s with
    | ok a =>
      exact .inl ⟨[a],_,rfl,by simp only [addressFields,hflag,hs]; rfl⟩
    | error e => exact .inr ⟨e,rfl,by simp only [addressFields,hflag,hs]⟩

/-- The two fields of an address change where a flag gives one, and else they stay as they are. -/
theorem exists_addressFields {fs : Fields} {host port : String} {flag : Option Argument} {below : String}
    {a b : Address} (hfs : Ordered fs) (hne : host ≠ port) (hhost : get? host fs = some (.text b.host))
    (hport : get? port fs = some (.int b.port)) (hb : Address.read below = .ok b)
    (ha : Address.read ((Argument.given? flag).getD below) = .ok a) :
    ∃ changes, addressFields host port flag = .ok changes ∧ ∀ more,
      Settings.amend fs (changes++more) =
        Settings.amend (put port (.int a.port) (put host (.text a.host) fs)) more := by
  have hport' : get? port (put host (.text a.host) fs) = some (.int b.port) := by
    rw [get?_put,if_neg hne,hport]
  cases hflag : Argument.given? flag with
  | none =>
    rw [hflag,Option.getD_none,hb] at ha
    cases ha
    refine ⟨[],by simp only [addressFields,hflag],fun more => ?_⟩
    rw [put_of_get? hfs hhost,put_of_get? hfs hport,List.nil_append]
  | some s =>
    rw [hflag,Option.getD_some] at ha
    refine ⟨[(host,.text a.host),(port,.int a.port)],by simp only [addressFields,hflag,ha],fun more => ?_⟩
    rw [List.cons_append,List.cons_append,List.nil_append,Settings.amend_cons hfs hhost,
      Value.orElse_of_ne Value.noConfusion,Settings.amend_cons (ordered_put _ _ _ hfs) hport',
      Value.orElse_of_ne Value.noConfusion]

theorem configOf_eq (fs : Flags) (env : Environment) : configOf fs env =
    match Address.read (winning none env "HEALTHSCOPE_ENDPOINT_ADDR" ":80") with
    | .error e => .error (.address e)
    | .ok a =>
      match Address.read (winning none env "HEALTHSCOPE_METRICS_ADDR" ":8080") with
      | .error e => .error (.address e)
      | .ok b =>
        (addressFields "endpoint_host" "endpoint_port" fs.endpoint).bind fun endpoint =>
          (addressFields "liveness_host" "liveness_port" fs.metrics).bind fun liveness =>
            Settings.amend (inForce .empty env a b)
              (("namespace",argumentValue fs.space)::("kubeconfig",argumentValue fs.kubeconfig)::
                (endpoint++liveness)) := by
  have hwinning (name standard : String) :
      winning none env name standard = (env.given? name).getD standard := rfl
  simp only [hwinning,configOf,Settings.ofEnvironment,bind]
  cases Address.read ((env.given? "HEALTHSCOPE_ENDPOINT_ADDR").getD ":80") with
  | error e => rfl
  | ok a => cases Address.read ((env.given? "HEALTHSCOPE_METRICS_ADDR").getD ":8080") <;> rfl

theorem configOf_of_error {fs : Flags} {env : Environment} {e : AddressFault}
    (h : (consulted fs env).mapM Address.read = .error e) : configOf fs env = .error (.address e) := by
  rw [configOf_eq]
  simp only [consulted,mapM_read_cons,List.mapM_append,bind,pure] at h
  split at h
  · rename_i a ha
    rw [ha]
    split at h
    · rename_i b hb
      rw [hb]
      rcases addressFields_cases "endpoint_host" "endpoint_port" fs.endpoint with
        ⟨as,changes,has,hchanges⟩ | ⟨e',he,hchanges⟩
      · rcases addressFields_cases "liveness_host" "liveness_port" fs.metrics with
          ⟨as',changes',has',hchanges'⟩ | ⟨e',he,hchanges'⟩
        · rw [has,has'] at h
          cases h
        · rw [has,he] at h
          cases h
          simp only [hchanges,hchanges',Except.bind]
      · rw [he] at h
        cases h
        simp only [hchanges,Except.bind]
    · rename_i e' he
      cases h
      rw [he]
  · rename_i e' he
    cases h
    rw [he]

theorem winning_mem_consulted (fs : Flags) (env : Environment) :
    winning fs.endpoint env "HEALTHSCOPE_ENDPOINT_ADDR" ":80" ∈ consulted fs env ∧
      winning fs.metrics env "HEALTHSCOPE_METRICS_ADDR" ":8080" ∈ consulted fs env := by
  have hnone (name standard : String) :
      winning none env name standard = (env.given? name).getD standard := rfl
  unfold consulted
  simp only [hnone]
  constructor
  · cases h : Argument.given? fs.endpoint <;> simp [winning,h]
  · cases h : Argument.given? fs.metrics <;> simp [winning,h]

theorem configOf_of_read {fs : Flags} {env : Environment}
    (hread : ∀ a ∈ consulted fs env, ∃ b, Address.read a = .ok b) {endpoint liveness : Address}
    (hendpoint : Address.read (winning fs.endpoint env "HEALTHSCOPE_ENDPOINT_ADDR" ":80") = .ok endpoint)
    (hliveness : Address.read (winning fs.metrics env "HEALTHSCOPE_METRICS_ADDR" ":8080") = .ok liveness) :
    configOf fs env = .ok (inForce fs env endpoint liveness) := by
  obtain ⟨a,ha⟩ := hread (winning none env "HEALTHSCOPE_ENDPOINT_ADDR" ":80") (by simp [consulted])
  obtain ⟨b,hb⟩ := hread (winning none env "HEALTHSCOPE_METRICS_ADDR" ":8080") (by simp [consulted])
  have hordered (e l : Address) : Ordered (inForce fs env e l) := ordered_fields _ _ e l
  obtain ⟨changes,hchanges,hamend⟩ := exists_addressFields (hordered a b)
    (show "endpoint_host" ≠ "endpoint_port" by decide) rfl rfl ha hendpoint
  obtain ⟨changes',hchanges',hamend'⟩ := exists_addressFields (hordered endpoint b)
    (show "liveness_host" ≠ "liveness_port" by decide) rfl rfl hb hliveness
  have hlast := hamend' []
  rw [List.append_nil] at hlast
  rw [configOf_eq,ha,hb]
  simp only [hchanges,hchanges',Except.bind]
  calc Settings.amend (inForce .empty env a b) (("namespace",argumentValue fs.space)::
        ("kubeconfig",argumentValue fs.kubeconfig)::(changes++changes'))
    _ = Settings.amend (inForce fs env a b) (changes++changes') := by
      unfold inForce
      rw [Settings.amend_cons (ordered_fields _ _ a b) rfl,put_fields_space,
        Settings.amend_cons (ordered_fields _ _ a b) rfl,put_fields_kubeconfig]
      rfl
    _ = Settings.amend (inForce fs env endpoint b) changes' := hamend changes'
    _ = .ok (inForce fs env endpoint liveness) := hlast

/-- There is no third way beside the first address that cannot be read and the settings in force. -/
theorem configOf_cases (fs : Flags) (env : Environment) :
    (∃ e, (consulted fs env).mapM Address.read = .error e ∧ configOf fs env = .error (.address e)) ∨
    ∃ bs endpoint liveness, (consulted fs env).mapM Address.read = .ok bs ∧
      Address.read (winning fs.endpoint env "HEALTHSCOPE_ENDPOINT_ADDR" ":80") = .ok endpoint ∧
      Address.read (winning fs.metrics env "HEALTHSCOPE_METRICS_ADDR" ":8080") = .ok liveness ∧
      configOf fs env = .ok (inForce fs env endpoint liveness) := by
  cases hread : (consulted fs env).mapM Address.read with
  | error e => exact .inl ⟨e,rfl,configOf_of_error hread⟩
  | ok bs =>
    have h := (mapM_read_isOk_iff _).mp ⟨bs,hread⟩
    obtain ⟨endpoint,hendpoint⟩ := h _ (winning_mem_consulted fs env).1
    obtain ⟨liveness,hliveness⟩ := h _ (winning_mem_consulted fs env).2
    exact .inr ⟨bs,endpoint,liveness,rfl,hendpoint,hliveness,configOf_of_read h hendpoint hliveness⟩

/-- The variables of the addresses that flags win over. -/
def overridden (fs : Flags) : List String :=
  (if (Argument.given? fs.endpoint).isSome then ["HEALTHSCOPE_ENDPOINT_ADDR"] else [])++
    if (Argument.given? fs.metrics).isSome then ["HEALTHSCOPE_METRICS_ADDR"] else []

/-- Environments that differ in nothing but what flags win over. -/
def Agree (fs : Flags) (env env' : Environment) : Prop :=
  ∀ name, name ∉ overridden fs → env.given? name = env'.given? name

/-- No variable that a flag wins over holds an address that cannot be read. -/
def Legible (fs : Flags) (env : Environment) : Prop :=
  ∀ name ∈ overridden fs, ∀ a, env.given? name = some a → ∃ b, Address.read a = .ok b

theorem Legible.winning {fs : Flags} {env : Environment} (h : Legible fs env) {name standard : String}
    (hname : name ∈ overridden fs) (hstandard : ∃ b, Address.read standard = .ok b) :
    ∃ b, Address.read (winning none env name standard) = .ok b := by
  change ∃ b, Address.read ((env.given? name).getD standard) = .ok b
  cases hgiven : env.given? name with
  | none => exact hstandard
  | some a => exact h name hname a hgiven

theorem Agree.consulted {fs : Flags} {env env' : Environment} (h : Agree fs env env')
    (hl : Legible fs env) (hl' : Legible fs env') :
    List.Forall₂ (fun a a' => a = a' ∨ (∃ b, Address.read a = .ok b) ∧ ∃ b, Address.read a' = .ok b)
      (consulted fs env) (consulted fs env') := by
  have hone {name standard : String} (hstandard : ∃ b, Address.read standard = .ok b) :
      winning none env name standard = winning none env' name standard ∨
        (∃ b, Address.read (winning none env name standard) = .ok b) ∧
          ∃ b, Address.read (winning none env' name standard) = .ok b := by
    by_cases hname : name ∈ overridden fs
    · exact .inr ⟨hl.winning hname hstandard,hl'.winning hname hstandard⟩
    · exact .inl (congrArg (Option.getD · standard) (h name hname))
  have hflags : ∀ a ∈ (Argument.given? fs.endpoint).toList++(Argument.given? fs.metrics).toList, a = a ∨
      (∃ b, Address.read a = .ok b) ∧ ∃ b, Address.read a = .ok b := fun _ _ => .inl rfl
  refine .cons (hone ⟨⟨"0.0.0.0",80⟩,?_⟩) (.cons (hone ⟨⟨"0.0.0.0",8080⟩,?_⟩) (List.forall₂_same.mpr hflags))
  all_goals decide +kernel

theorem Agree.winning {fs : Flags} {env env' : Environment} (h : Agree fs env env') :
    winning fs.endpoint env "HEALTHSCOPE_ENDPOINT_ADDR" ":80" =
      winning fs.endpoint env' "HEALTHSCOPE_ENDPOINT_ADDR" ":80" ∧
    winning fs.metrics env "HEALTHSCOPE_METRICS_ADDR" ":8080" =
      winning fs.metrics env' "HEALTHSCOPE_METRICS_ADDR" ":8080" := by
  have hone {flag : Option Argument} {name standard : String}
      (hname : Argument.given? flag = none → name ∉ overridden fs) :
      Launch.winning flag env name standard = Launch.winning flag env' name standard := by
    cases hflag : Argument.given? flag with
    | none => simp only [Launch.winning,hflag,h _ (hname hflag)]
    | some s => simp only [Launch.winning,hflag,Option.getD_some]
  exact ⟨hone fun hflag => by simp [overridden,hflag],hone fun hflag => by simp [overridden,hflag]⟩

theorem Agree.inForce {fs : Flags} {env env' : Environment} (h : Agree fs env env')
    (endpoint liveness : Address) : inForce fs env endpoint liveness = inForce fs env' endpoint liveness := by
  have hname (name : String) (hne : name ≠ "HEALTHSCOPE_ENDPOINT_ADDR" ∧ name ≠ "HEALTHSCOPE_METRICS_ADDR") :
      name ∉ overridden fs := by
    unfold overridden
    split <;> split <;> simp [hne]
  simp only [Launch.inForce,h _ (hname "KUBERNETES_NAMESPACE" (by decide)),
    h _ (hname "KUBECONFIG" (by decide))]

/-- The settings of a start. It succeeds exactly when every address that is consulted can be read, those of
variables that a flag wins over with the rest, and then each field is the one in force; else it ends with the
first address that cannot be read, and with nothing else. As long as a variable that a flag wins over can be
read, its value makes no difference, to the settings or to the fault. -/
theorem flags_over_environment (fs : Flags) (env : Environment) :
    (∀ config, configOf fs env = .ok config ↔ (∀ a ∈ consulted fs env, ∃ b, Address.read a = .ok b) ∧
      ∃ endpoint liveness,
        Address.read (winning fs.endpoint env "HEALTHSCOPE_ENDPOINT_ADDR" ":80") = .ok endpoint ∧
        Address.read (winning fs.metrics env "HEALTHSCOPE_METRICS_ADDR" ":8080") = .ok liveness ∧
        config = inForce fs env endpoint liveness) ∧
    (∀ f, configOf fs env = .error f ↔
      ∃ e, (consulted fs env).mapM Address.read = .error e ∧ f = .address e) ∧
    (∀ env', Agree fs env env' → Legible fs env → Legible fs env' →
      configOf fs env = configOf fs env') := by
  refine ⟨fun config => ?_,fun f => ?_,fun env' hagree hl hl' => ?_⟩
  · constructor
    · intro hconfig
      rcases configOf_cases fs env with
        ⟨e,-,hfault⟩ | ⟨bs,endpoint,liveness,hread,hendpoint,hliveness,hforce⟩
      · rw [hfault] at hconfig
        cases hconfig
      · rw [hforce] at hconfig
        cases hconfig
        exact ⟨(mapM_read_isOk_iff _).mp ⟨bs,hread⟩,endpoint,liveness,hendpoint,hliveness,rfl⟩
    · rintro ⟨h,endpoint,liveness,hendpoint,hliveness,rfl⟩
      exact configOf_of_read h hendpoint hliveness
  · constructor
    · intro hf
      rcases configOf_cases fs env with ⟨e,hread,hfault⟩ | ⟨_,_,_,-,-,-,hforce⟩
      · rw [hfault] at hf
        cases hf
        exact ⟨e,hread,rfl⟩
      · rw [hforce] at hf
        cases hf
    · rintro ⟨e,hread,rfl⟩
      exact configOf_of_error hread
  · have hcongr := mapM_read_error_congr (hagree.consulted hl hl')
    obtain ⟨hsame,hsame'⟩ := hagree.winning
    rcases configOf_cases fs env with
      ⟨e,hread,hfault⟩ | ⟨bs,endpoint,liveness,hread,hendpoint,hliveness,hforce⟩
    · rw [hfault,configOf_of_error ((hcongr e).mp hread)]
    · rcases configOf_cases fs env' with ⟨e,hread',-⟩ | ⟨_,_,_,-,hendpoint',hliveness',hforce'⟩
      · rw [(hcongr e).mpr hread'] at hread
        cases hread
      · rw [← hsame,hendpoint] at hendpoint'
        rw [← hsame',hliveness] at hliveness'
        cases hendpoint'
        cases hliveness'
        rw [hforce,hforce',hagree.inForce]

def ports : Flags := ⟨some (.text ":2"),some (.text ":1"),none,none,none⟩

def shopAt (address : String) : Environment :=
  [("HEALTHSCOPE_ENDPOINT_ADDR",address),("KUBERNETES_NAMESPACE","shop")]

theorem read_consulted_shopAt {address : String} {b : Address} (hne : address ≠ "")
    (h : Address.read address = .ok b) :
    ∀ a ∈ consulted ports (shopAt address), ∃ b, Address.read a = .ok b := by
  have hconsulted : consulted ports (shopAt address) = [address,":8080",":1",":2"] := by
    simp [consulted,winning,Argument.given?,Environment.given?,shopAt,List.lookup_cons,ports,hne]
  rw [hconsulted,List.forall_mem_cons]
  refine ⟨⟨b,h⟩,?_⟩
  rw [← mapM_read_isOk_iff]
  exact ⟨[⟨"0.0.0.0",8080⟩,⟨"0.0.0.0",1⟩,⟨"0.0.0.0",2⟩],by decide +kernel⟩

theorem legible_shopAt {address : String} (h : ∃ b, Address.read address = .ok b) :
    Legible ports (shopAt address) := by
  have hnames : overridden ports = ["HEALTHSCOPE_ENDPOINT_ADDR","HEALTHSCOPE_METRICS_ADDR"] := rfl
  intro name hname a ha
  rw [hnames] at hname
  rcases List.mem_pair.mp hname with rfl | rfl
  · have hgiven : (Environment.given? (shopAt address) "HEALTHSCOPE_ENDPOINT_ADDR") =
        if address.isEmpty then none else some address := rfl
    rw [hgiven] at ha
    split at ha
    · cases ha
    · rwa [← Option.some.inj ha]
  · cases ha

/-- Where both addresses come from flags, that of the environment makes no difference. -/
theorem flags_over_environment_ports : configOf ports (shopAt ":81") = configOf ports (shopAt "m:82") ∧
    configOf ports (shopAt ":81") = .ok (fields (.text "shop") .null ⟨"0.0.0.0",1⟩ ⟨"0.0.0.0",2⟩) := by
  have hread : Address.read ":81" = .ok ⟨"0.0.0.0",81⟩ := by decide +kernel
  have hread' : Address.read "m:82" = .ok ⟨"m",82⟩ := by decide +kernel
  have hagree : Agree ports (shopAt ":81") (shopAt "m:82") := by
    intro name hname
    have hne : (name == "HEALTHSCOPE_ENDPOINT_ADDR") = false := by
      rw [beq_eq_false_iff_ne]
      rintro rfl
      exact hname (by decide)
    simp only [Environment.given?,shopAt,List.lookup_cons,hne]
  have hall := read_consulted_shopAt (by decide) hread
  obtain ⟨hok,-,hsame⟩ := flags_over_environment ports (shopAt ":81")
  refine ⟨hsame _ hagree (legible_shopAt ⟨_,hread⟩) (legible_shopAt ⟨_,hread'⟩),
    (hok _).mpr ⟨hall,_,_,?_,?_,rfl⟩⟩
  all_goals decide +kernel

/-- A variable that cannot be read ends the start even where flags win over it and can be read. -/
theorem overridden_variable_is_read :
    CommandLine.read ["-p",":1","-m",":2"] = .flags ports ∧
    Address.read (winning ports.endpoint (shopAt "bad") "HEALTHSCOPE_ENDPOINT_ADDR" ":80") =
      .ok ⟨"0.0.0.0",1⟩ ∧
    Address.read (winning ports.metrics (shopAt "bad") "HEALTHSCOPE_METRICS_ADDR" ":8080") =
      .ok ⟨"0.0.0.0",2⟩ ∧
    configOf ports (shopAt "bad") = .error (.address (.format "bad")) := by
  refine ⟨by decide +kernel,by decide +kernel,by decide +kernel,?_⟩
  exact configOf_of_error (by decide +kernel)

end Launch
end HealthRollup
