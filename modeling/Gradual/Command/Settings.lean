import Gradual.Command.Config
import Gradual.Files.Path

/-!
# Settings

What a command works with: the fields of the configuration file, overridden by the options of the
command line, with defaults for what neither gives.
-/

namespace Gradual

/-- All that a command needs to know. -/
structure Settings where
  /-- The folder of the configuration file. -/
  projectRoot : Text
  /-- Where files of modules are looked up. -/
  sourceRoot : Text
  minSeverity : Severity
  format : OutputFormat
  showTypes : Bool
  externalFunctions : Table Text ExternalFunction
  verbose : Bool
  quiet : Bool

namespace Settings

/-- The settings of a configuration and options, for a project whose root is seen from a place. -/
def resolve (place : Place) (projectRoot : Text) (config : Config) (options : Options) :
    Settings where
  projectRoot := projectRoot
  sourceRoot := Path.ofPlace
    (Path.enter (Path.enter place projectRoot) (config.sourceRoot.getD "."))
  minSeverity := (options.minSeverity.or config.minSeverity).getD .hint
  format := (options.format.or config.format).getD .text
  showTypes := (options.types.or config.showTypes).getD false
  externalFunctions := config.externalFunctions.getD .empty
  verbose := options.verbose
  quiet := options.quiet

/-- Whether progress is printed: not if it would mix with data. -/
def showsProgress (s : Settings) : Bool := !s.quiet && s.format == .text

end Settings

end Gradual
