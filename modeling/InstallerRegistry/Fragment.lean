import InstallerRegistry.Component
import InstallerRegistry.Manifest.Contents
import InstallerRegistry.Xml

/-!
# Fragments

The **fragment** of a manifest is what an installer is compiled from. It holds, in this order, the
properties that are set from the registry, the launch conditions, one component for each entry in
one group, and the features with references to their components. An entry that names no feature is
installed with the default one, which is added if the manifest does not declare it and something
needs it.
-/

namespace InstallerRegistry

open Attribute (always ifFilled ifGiven)

/-- The attribute that chooses the 64-bit view of the registry. -/
def bitness (win64 : Bool) : List Attribute :=
  if win64 then always "Bitness" "always64".toList else []

/-! ## Properties and launch conditions -/

namespace Property

/-- The search that sets the property. -/
def search (p : Property) (root key : Text) : Xml :=
  .leaf "RegistrySearch".toList
    (always "Id" (Identifier.sanitize p.id ++ "_Search".toList) ++ always "Root" root
      ++ always "Key" key ++ ifFilled "Name" p.name
      ++ always "Type" "raw".toList ++ bitness p.win64)

/-- The element of a property. -/
def toXml (p : Property) : Except RegistryError Xml := do
  let (hive, key) ← RegistryPath.parse p.key
  match hive.installerRoot? with
  | none => .error (.unwritableHive hive)
  | some root =>
    return .element "Property".toList (always "Id" p.id ++ ifGiven "Value" p.value)
      [p.search root key]

end Property

/-- The element of a launch condition. -/
def LaunchCondition.toXml (c : LaunchCondition) : Xml :=
  .leaf "Launch".toList (always "Condition" c.condition ++ always "Message" c.message)

/-! ## Components -/

namespace Component

/-- The strings of a list, one from each line of a text. A line feed at the end ends the last line,
and carriage returns at the end of a line do not belong to it. -/
def strings (t : Text) : List Text :=
  (Text.splitOn '\n' ((Text.before? ['\n'] t).getD t)).map (Text.dropEndWhile (· == '\r'))

/-- The element of a string in a list. -/
def stringElement (t : Text) : Xml :=
  .leaf "MultiStringValue".toList (always "Value" t)

/-- The attributes that say where a value goes and of what type it is. -/
def valueAttributes (c : Component) : List Attribute :=
  always "Id" c.id ++ always "Root" c.root ++ always "Key" c.entry.key
    ++ ifFilled "Name" c.entry.name ++ always "Type" c.value.type.name

/-- The attribute that makes a value stand for its component. -/
def keyPath : List Attribute :=
  always "KeyPath" "yes".toList

/-- The element of the value: a list of strings is given by elements, any other value by an
attribute. -/
def valueElement (c : Component) : Xml :=
  match c.value.type with
  | .multiString =>
    .element "RegistryValue".toList (c.valueAttributes ++ keyPath)
      ((strings c.value.payload).map stringElement)
  | _ =>
    .leaf "RegistryValue".toList
      (c.valueAttributes ++ always "Value" c.value.payload ++ keyPath)

/-- The element of a component. -/
def toXml (c : Component) : Xml :=
  .element "Component".toList
    (always "Id" c.reference ++ always "Guid" ['*']
      ++ ifGiven "Condition" c.entry.condition ++ bitness c.entry.win64)
    [c.valueElement]

/-- The element that refers to a component. -/
def referenceElement (c : Component) : Xml :=
  .leaf "ComponentRef".toList (always "Id" c.reference)

end Component

/-! ## Features -/

namespace Feature

/-- The components that a feature installs. -/
def components (f : Feature) (cs : List Component) : List Component :=
  cs.filter (·.feature == f.id)

/-- The element of a feature. -/
def toXml (cs : List Component) (f : Feature) : Xml :=
  .element "Feature".toList
    (always "Id" f.id ++ ifFilled "Title" f.title
      ++ ifFilled "Description" f.description
      ++ always "Level" (Text.ofInt f.level.toInt))
    ((f.components cs).map Component.referenceElement)

end Feature

/-- The default feature. -/
def Feature.default : Feature :=
  { id := defaultFeature, title := defaultFeature }

namespace Manifest

/-- The features of a fragment with some components. -/
def installedFeatures (m : Manifest) (cs : List Component) : List Feature :=
  if !(m.features.any (·.id == defaultFeature)) && cs.any (·.feature == defaultFeature) then
    m.features ++ [Feature.default]
  else m.features

/-! ## The whole fragment -/

/-- Elements under a heading, which stands only above something. -/
def headed (heading : String) (elements : List Xml) : List Xml :=
  if elements.isEmpty then [] else .comment heading.toList :: elements ++ [.gap]

/-- The element that holds the components. -/
def group (m : Manifest) (cs : List Component) : Xml :=
  .element "ComponentGroup".toList
    (always "Id" m.fragment ++ always "Directory" m.directory) (cs.map Component.toXml)

/-- The root element of a fragment with some properties and components. -/
def root (m : Manifest) (properties : List Xml) (cs : List Component) : Xml :=
  .element "Wix".toList (always "xmlns" "http://wixtoolset.org/schemas/v4/wxs".toList)
    [.element "Fragment".toList []
      (.gap :: headed "Registry Properties" properties
        ++ headed "Launch Conditions" (m.launchConditions.map LaunchCondition.toXml)
        ++ [.comment "Registry Values".toList, m.group cs, .gap]
        ++ .comment "Features".toList
          :: (m.installedFeatures cs).map (Feature.toXml cs) ++ [.gap])]

/-- The fragment of a manifest with some entries, as a tree. -/
def treeOf (m : Manifest) (entries : List Entry) : Except RegistryError Xml := do
  let properties ← m.properties.mapM Property.toXml
  let components ← Component.list entries
  return m.root properties components

/-- **The fragment of a manifest with some entries**, instead of its own. -/
def fragmentOf (m : Manifest) (entries : List Entry) : Except RegistryError Text := do
  let tree ← m.treeOf entries
  return Xml.prolog "Generated by wix-reg".toList ++ tree.print 0

/-- **The fragment of a manifest**, its patterns being taken from the directory `base`. -/
def generate (root : FileTree) (base : Text) (m : Manifest) : Except RegistryError Text := do
  m.fragmentOf (← m.contents root base).entries

end Manifest

end InstallerRegistry
