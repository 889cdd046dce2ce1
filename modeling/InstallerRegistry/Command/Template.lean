import InstallerRegistry.Text

/-!
# The sample manifest

What a new manifest holds, for its author to change.
-/

namespace InstallerRegistry.Command

/-- The sample manifest. -/
def template : Text :=
  [
    "# wix-reg manifest",
    "fragment: RegistryComponents",
    "directory: INSTALLFOLDER",
    "",
    "features:",
    "  - id: Core",
    "    title: Core settings",
    "",
    "registry:",
    "  # Types follow the value: text is \"string\", text with a line break is",
    "  # \"multiString\", text with % is \"expandable\", numbers are \"integer\".",
    "  - key: HKLM/Software/My Company/My Product",
    "    feature: Core",
    "    values:",
    "      Message: Hello",
    "      Count: 777",
    "      InstallPath: \"[INSTALLFOLDER]\"",
    "      LogDir: \"%LOCALAPPDATA%\\\\My Product\\\\Logs\"",
    "      Blob: \x7b binary: \"DEADBEEF\" \x7d",
    "",
    "  - key: HKCR/.myapp",
    "    values:",
    "      \"@\": MyApp.Document",
    "",
    "# reg_files:",
    "#   - path: ./settings/*.reg",
    "#     feature: Core",
    "",
    "properties:",
    "  - id: NET20",
    "    key: HKLM/Software/Microsoft/NET Framework Setup/NDP/v2.0.50727",
    "    name: Install",
    "    value: \"0\"",
    "",
    "launch_conditions:",
    "  - condition: NET20=\"#1\"",
    "    message: Please install .NET 2.0 first."
  ].flatMap fun line => line.toList ++ ['\n']

end InstallerRegistry.Command
